import Aatt.CatchHandlers

/-! In a code item that the verifier accepts, `FindCatchBlock` finds the handler that the tables mean, whose address is
inside the method, and reads nothing outside the file. -/
namespace Aatt.Dex

open Aatt.Lib

variable {mem mem' : Memory} {size : Nat} {typeIdsSize insnsSize : BitVec 32} {item : Nat}

section Checks

variable {α β : Type}

theorem bind_ok {x : Except Failure α} {f : α → Except Failure β} {b : β} :
    x >>= f = .ok b ↔ ∃ a, x = .ok a ∧ f a = .ok b := by
  cases x with
  | error failure => exact ⟨nofun,nofun⟩
  | ok a =>
    constructor
    · intro taken
      exact ⟨a,rfl,taken⟩
    · rintro ⟨a,⟨⟩,taken⟩
      exact taken

theorem require_ok {condition : Prop} [Decidable condition] {failure : Failure} {u : Unit} :
    require condition failure = .ok u ↔ condition := by
  unfold require
  split <;> simp_all

theorem require_bind {condition : Prop} [Decidable condition] {failure : Failure} {f : Unit → Except Failure β}
    {b : β} :
    require condition failure >>= f = .ok b ↔ condition ∧ f () = .ok b := by
  rw [bind_ok]
  constructor
  · rintro ⟨u,met,taken⟩
    exact ⟨require_ok.mp met,taken⟩
  · rintro ⟨met,taken⟩
    exact ⟨(),require_ok.mpr met,taken⟩

end Checks

structure Handlers where
  typed : List (BitVec 32 × BitVec 32)
  catchAll : Option (BitVec 32)

/-- `n` types and addresses, and the address behind them. -/
def readTyped (mem : Memory) : Nat → Nat → List (BitVec 32 × BitVec 32) × Nat
  | 0,ptr => ([],ptr)
  | n + 1,ptr =>
    let typeIdx := decodeUnsignedLeb128 mem ptr
    let addr := decodeUnsignedLeb128 mem typeIdx.2
    let rest := readTyped mem n addr.2
    ((typeIdx.1,addr.1) :: rest.1,rest.2)

/-- The list of handlers at an address, and the address behind it. -/
def readHandlers (mem : Memory) (ptr : Nat) : Handlers × Nat :=
  let count := decodeSignedLeb128 mem ptr
  let typed := readTyped mem count.1.toInt.natAbs count.2
  if count.1.toInt ≤ 0 then
    let addr := decodeUnsignedLeb128 mem typed.2
    (⟨typed.1,some addr.1⟩,addr.2)
  else (⟨typed.1,none⟩,typed.2)

/-- The first handler whose type is resolved and fits the exception, else the handler for everything. -/
def Handlers.select {κ : Type} (resolve : BitVec 32 → Option κ) (isAssignableFrom : κ → Bool) (handlers : Handlers) :
    Option (BitVec 32) :=
  ((handlers.typed.find? fun h => (resolve h.1).any isAssignableFrom).map (·.2)).or handlers.catchAll

def TryItem.Covers (t : TryItem) (address : BitVec 32) : Prop := t.startAddr ≤ address ∧ address < t.endAddr

instance (t : TryItem) (address : BitVec 32) : Decidable (t.Covers address) := inferInstanceAs (Decidable (_ ∧ _))

def tries (mem : Memory) (item : Nat) : List TryItem :=
  (List.range (triesSize mem item).toNat).map (tryItem mem item)

/-- The handler for an exception at a dex pc, as the tables mean it. -/
def handlerFor {κ : Type} (resolve : BitVec 32 → Option κ) (isAssignableFrom : κ → Bool) (mem : Memory) (item : Nat)
    (dexPc : BitVec 32) : Option (BitVec 32) :=
  ((tries mem item).find? fun t => decide (t.Covers dexPc)).bind fun t =>
    (readHandlers mem (getCatchHandlerData mem item t.handlerOff.toNat)).1.select resolve isAssignableFrom

section Iterator

variable {κ : Type} (resolve : BitVec 16 → Option κ) (isAssignableFrom : κ → Bool)

def Handlers.presented (handlers : Handlers) : List (BitVec 16 × BitVec 32) :=
  handlers.typed.map (fun h => (h.1.setWidth 16,h.2)) ++ handlers.catchAll.toList.map (kDexNoIndex16,·)

/-- `n` types and addresses, and the address behind them. -/
def remaining (mem : Memory) (n ptr : Nat) (catchAll : Bool) : Handlers :=
  ⟨(readTyped mem n ptr).1,if catchAll then some (decodeUnsignedLeb128 mem (readTyped mem n ptr).2).1 else none⟩

/-- The address of the first handler that is taken. -/
def firstTaken (handlers : List (BitVec 16 × BitVec 32)) : BitVec 32 :=
  ((handlers.find? fun h => catches resolve isAssignableFrom h.1).map (·.2)).getD kDexNoIndex

theorem findCatchLoop_next (n : Nat) (typeIdx : BitVec 16) (address : BitVec 32) (ptr : Nat) (catchAll : Bool) :
    findCatchLoop resolve isAssignableFrom mem (CatchHandlerIterator.next mem ⟨typeIdx,address,ptr,n,catchAll⟩) =
      firstTaken resolve isAssignableFrom (remaining mem n ptr catchAll).presented := by
  induction n generalizing typeIdx address ptr with
  | zero =>
    cases catchAll with
    | false =>
      rw [findCatchLoop]
      rfl
    | true =>
      rw [findCatchLoop]
      rfl
  | succ n ih =>
    have positive : ((n + 1 : Nat) : Int) > 0 := by omega
    have less : ((n + 1 : Nat) : Int) - 1 = n := by omega
    rw [CatchHandlerIterator.next,if_pos positive,findCatchLoop,if_pos]
    · simp only [less]
      rw [ih]
      simp only [firstTaken,Handlers.presented,remaining,readTyped,List.map_cons,List.cons_append,List.find?_cons]
      split <;> simp_all
    · simp only [CatchHandlerIterator.hasNext,less]
      simp

theorem findCatchLoop_initData (ptr : Nat) :
    findCatchLoop resolve isAssignableFrom mem (CatchHandlerIterator.initData mem ptr) =
      firstTaken resolve isAssignableFrom (readHandlers mem ptr).1.presented := by
  rw [CatchHandlerIterator.initData,findCatchLoop_next]
  by_cases all : (decodeSignedLeb128 mem ptr).1.toInt ≤ 0
  · simp [readHandlers,remaining,all]
  · simp [readHandlers,remaining,all]

end Iterator

section Selection

variable {κ : Type} (resolve : BitVec 32 → Option κ) (isAssignableFrom : κ → Bool)

/-- `GetClassFromTypeIndex` takes the index as 16 bits. -/
def narrowed (typeIdx : BitVec 16) : Option κ := resolve (typeIdx.setWidth 32)

theorem catches_narrowed {typeIdx : BitVec 32} (small : typeIdx.toNat < 65535) :
    catches (narrowed resolve) isAssignableFrom (typeIdx.setWidth 16) = (resolve typeIdx).any isAssignableFrom := by
  have whole : (typeIdx.setWidth 16).setWidth 32 = typeIdx := by
    refine BitVec.eq_of_toNat_eq ?_
    simp only [BitVec.toNat_setWidth]
    omega
  have typed : typeIdx.setWidth 16 ≠ kDexNoIndex16 := by
    intro same
    have number := congrArg BitVec.toNat same
    rw [BitVec.toNat_setWidth] at number
    change typeIdx.toNat % 65536 = 65535 at number
    omega
  rw [catches,if_neg typed,narrowed,whole]
  cases resolve typeIdx <;> rfl

theorem firstTaken_eq (handlers : Handlers) (small : ∀ h ∈ handlers.typed, h.1.toNat < 65535) :
    firstTaken (narrowed resolve) isAssignableFrom handlers.presented =
      (handlers.select resolve isAssignableFrom).getD kDexNoIndex := by
  obtain ⟨typed,catchAll⟩ := handlers
  induction typed with
  | nil =>
    cases catchAll with
    | none => rfl
    | some address => simp [firstTaken,Handlers.presented,Handlers.select,catches]
  | cons h rest ih =>
    have after := ih fun g member => small g (List.mem_cons_of_mem h member)
    have taken := catches_narrowed resolve isAssignableFrom (small h List.mem_cons_self)
    simp only [firstTaken,Handlers.presented,Handlers.select,List.map_cons,List.cons_append,List.find?_cons,
      taken] at after ⊢
    split
    · rfl
    · exact after

end Selection

/-- The try items are in order and do not overlap. -/
structure Ordered (mem : Memory) (item : Nat) : Prop where
  width : ∀ i < (triesSize mem item).toNat, (tryItem mem item i).startAddr ≤ (tryItem mem item i).endAddr
  apart : ∀ i j, i < j → j < (triesSize mem item).toNat → (tryItem mem item i).endAddr ≤ (tryItem mem item j).startAddr

theorem Ordered.before (ordered : Ordered mem item) {address : BitVec 32} {i j : Nat} (less : i ≤ j)
    (inside : j < (triesSize mem item).toNat) (early : address < (tryItem mem item i).startAddr) :
    address < (tryItem mem item j).startAddr := by
  rcases Nat.eq_or_lt_of_le less with rfl | less
  · exact early
  · have width := ordered.width i (by omega)
    have apart := ordered.apart i j less inside
    simp only [BitVec.lt_def,BitVec.le_def] at *
    omega

theorem Ordered.after (ordered : Ordered mem item) {address : BitVec 32} {i j : Nat} (less : i ≤ j)
    (inside : j < (triesSize mem item).toNat) (late : (tryItem mem item j).endAddr ≤ address) :
    (tryItem mem item i).endAddr ≤ address := by
  rcases Nat.eq_or_lt_of_le less with rfl | less
  · exact late
  · have width := ordered.width j inside
    have apart := ordered.apart i j less inside
    simp only [BitVec.le_def] at *
    omega

theorem Ordered.unique (ordered : Ordered mem item) {address : BitVec 32} {i j : Nat}
    (inside : i < (triesSize mem item).toNat) (inside' : j < (triesSize mem item).toNat)
    (covers : (tryItem mem item i).Covers address) (covers' : (tryItem mem item j).Covers address) : i = j := by
  have apart (i j : Nat) (less : i < j) (inside : j < (triesSize mem item).toNat)
    (early : (tryItem mem item i).Covers address)
      (late : (tryItem mem item j).Covers address) : False := by
    have order := ordered.apart i j less inside
    obtain ⟨-,early⟩ := early
    obtain ⟨late,-⟩ := late
    simp only [BitVec.lt_def,BitVec.le_def] at *
    omega
  rcases Nat.lt_trichotomy i j with less | same | more
  · exact (apart i j less inside' covers covers').elim
  · exact same
  · exact (apart j i more inside covers' covers).elim

theorem findTryLoop_spec (ordered : Ordered mem item) (address : BitVec 32) (min max : Int) (low : 0 ≤ min)
    (high : max < (triesSize mem item).toNat) :
    (findTryLoop mem item address min max = -1 ∧
      ∀ i : Nat, min ≤ i → (i : Int) ≤ max → ¬ (tryItem mem item i).Covers address) ∨
    ∃ i : Nat, findTryLoop mem item address min max = i ∧ i < (triesSize mem item).toNat ∧
      (tryItem mem item i).Covers address := by
  induction min, max using findTryLoop.induct mem item address with
  | case1 min max inside mid ti early ih =>
    rw [findTryLoop,if_pos inside,if_pos early]
    rcases ih low (by omega) with ⟨missing,outside⟩ | found
    · refine .inl ⟨missing,fun i above below => ?_⟩
      by_cases left : (i : Int) ≤ mid - 1
      · exact outside i above left
      · intro covers
        have later := ordered.before (j := i) (by omega) (by omega) early
        simp only [TryItem.Covers,BitVec.lt_def,BitVec.le_def] at *
        omega
    · exact .inr found
  | case2 min max inside mid ti early late ih =>
    rw [findTryLoop,if_pos inside,if_neg early,if_pos late]
    rcases ih (by omega) high with ⟨missing,outside⟩ | found
    · refine .inl ⟨missing,fun i above below => ?_⟩
      by_cases right : mid + 1 ≤ (i : Int)
      · exact outside i right below
      · intro covers
        have before := ordered.after (i := i) (by omega) (by omega) late
        simp only [TryItem.Covers,BitVec.lt_def,BitVec.le_def] at *
        omega
    · exact .inr found
  | case3 min max inside mid ti early late =>
    rw [findTryLoop,if_pos inside,if_neg early,if_neg late]
    exact .inr ⟨mid.toNat,by omega,by omega,BitVec.not_lt.mp early,BitVec.not_le.mp late⟩
  | case4 min max empty =>
    rw [findTryLoop,if_neg empty]
    exact .inl ⟨rfl,fun i above below => by omega⟩

theorem find_tries (ordered : Ordered mem item) {address : BitVec 32} {i : Nat}
    (inside : i < (triesSize mem item).toNat) (covers : (tryItem mem item i).Covers address) :
    (tries mem item).find? (fun t => decide (t.Covers address)) = some (tryItem mem item i) := by
  have member : tryItem mem item i ∈ tries mem item := List.mem_map.mpr ⟨i,List.mem_range.mpr inside,rfl⟩
  cases found : (tries mem item).find? fun t => decide (t.Covers address) with
  | none => exact absurd (decide_eq_true covers) (List.find?_eq_none.mp found _ member)
  | some t =>
    obtain ⟨j,among,rfl⟩ := List.mem_map.mp (List.mem_of_find?_eq_some found)
    have taken := List.find?_some found
    rw [ordered.unique (List.mem_range.mp among) inside (of_decide_eq_true taken) covers]

theorem find_tries_none {address : BitVec 32}
    (outside : ∀ i < (triesSize mem item).toNat, ¬ (tryItem mem item i).Covers address) :
    (tries mem item).find? (fun t => decide (t.Covers address)) = none := by
  refine List.find?_eq_none.mpr fun t member => ?_
  obtain ⟨i,among,rfl⟩ := List.mem_map.mp member
  simpa using outside i (List.mem_range.mp among)

theorem offsetFor_eq (ordered : Ordered mem item) (address : BitVec 32) : offsetFor mem item address =
    (((tries mem item).find? fun t => decide (t.Covers address)).map fun t => (t.handlerOff.toNat : Int)).getD
      (-1) := by
  unfold offsetFor
  split
  next empty =>
    rw [find_tries_none fun i inside => by simp [empty] at inside]
    rfl
  next =>
    split
    next one =>
      have only : (triesSize mem item).toNat = 1 := by rw [one]; rfl
      by_cases covers : (tryItem mem item 0).Covers address
      · rw [find_tries ordered (by omega) covers]
        exact if_pos covers
      · rw [find_tries_none fun i inside => by rwa [show i = 0 by omega]]
        exact if_neg covers
    next =>
      rw [findCatchHandlerOffset,findTryItem]
      rcases findTryLoop_spec ordered address 0 ((triesSize mem item).toNat - 1) (Int.le_refl 0) (by omega) with
        ⟨missing,outside⟩ | ⟨i,found,inside,covers⟩
      · rw [missing,find_tries_none fun i inside => outside i (by omega) (by omega)]
        rfl
      · rw [found,find_tries ordered inside covers]
        simp only [Int.toNat_natCast,Option.map_some,Option.getD_some]
        exact if_neg (by omega)

theorem findCatchBlock_fst {κ : Type} (resolve : BitVec 16 → Option κ) (isAssignableFrom : κ → Bool)
    (ordered : Ordered mem item) (dexPc : BitVec 32) :
    (findCatchBlock resolve isAssignableFrom mem item dexPc).1 =
      (((tries mem item).find? fun t => decide (t.Covers dexPc)).map fun t =>
        firstTaken resolve isAssignableFrom
          (readHandlers mem (getCatchHandlerData mem item t.handlerOff.toNat)).1.presented).getD kDexNoIndex := by
  show findCatchLoop _ _ mem (.init mem item (offsetFor mem item dexPc)) = _
  rw [offsetFor_eq ordered]
  cases (tries mem item).find? fun t => decide (t.Covers dexPc) with
  | none =>
    rw [findCatchLoop]
    rfl
  | some t => exact findCatchLoop_initData ..

theorem findCatchBlock_snd {κ : Type} (resolve : BitVec 16 → Option κ) (isAssignableFrom : κ → Bool)
    (dexPc : BitVec 32) :
    (findCatchBlock resolve isAssignableFrom mem item dexPc).2 =
      ((findCatchBlock resolve isAssignableFrom mem item dexPc).1 != kDexNoIndex &&
        mem (insns item (findCatchBlock resolve isAssignableFrom mem item dexPc).1.toNat) != 0x0D) := rfl

theorem findCatchBlock_eq {κ : Type} (resolve : BitVec 32 → Option κ) (isAssignableFrom : κ → Bool)
    (ordered : Ordered mem item) (small : ∀ t ∈ tries mem item,
      ∀ h ∈ (readHandlers mem (getCatchHandlerData mem item t.handlerOff.toNat)).1.typed,
      h.1.toNat < 65535) (dexPc : BitVec 32) :
    (findCatchBlock (narrowed resolve) isAssignableFrom mem item dexPc).1 =
      (handlerFor resolve isAssignableFrom mem item dexPc).getD kDexNoIndex := by
  rw [findCatchBlock_fst _ _ ordered,handlerFor]
  cases found : (tries mem item).find? fun t => decide (t.Covers dexPc) with
  | none => rfl
  | some t => exact firstTaken_eq resolve isAssignableFrom _ (small t (List.mem_of_find?_eq_some found))

theorem lebLength_pos (mem : Memory) (n ptr : Nat) : 0 < lebLength mem (n + 1) ptr := by
  rw [lebLength]
  split <;> omega

theorem unsigned_advances (mem : Memory) (ptr : Nat) : ptr < (decodeUnsignedLeb128 mem ptr).2 := by
  rw [decodeUnsigned_eq]
  exact Nat.lt_add_of_pos_right (lebLength_pos mem 4 ptr)

theorem signed_advances (mem : Memory) (ptr : Nat) : ptr < (decodeSignedLeb128 mem ptr).2 := by
  rw [decodeSigned_eq]
  exact unsigned_advances mem ptr

theorem readTyped_advances (mem : Memory) (n ptr : Nat) : ptr ≤ (readTyped mem n ptr).2 := by
  induction n generalizing ptr with
  | zero => exact Nat.le_refl ptr
  | succ n ih =>
    have first := unsigned_advances mem ptr
    have second := unsigned_advances mem (decodeUnsignedLeb128 mem ptr).2
    have rest := ih (decodeUnsignedLeb128 mem (decodeUnsignedLeb128 mem ptr).2).2
    simp only [readTyped]
    omega

/-- All types and addresses of a list of handlers are in range. -/
structure InRange (typeIdsSize insnsSize : BitVec 32) (handlers : Handlers) : Prop where
  typed : ∀ h ∈ handlers.typed, h.1 < typeIdsSize ∧ h.2 < insnsSize
  catchAll : ∀ a ∈ handlers.catchAll, a < insnsSize

theorem checkTyped_ok {n ptr stop : Nat} (checked : checkTyped mem typeIdsSize insnsSize n ptr = .ok stop) :
    stop = (readTyped mem n ptr).2 ∧ ∀ h ∈ (readTyped mem n ptr).1, h.1 < typeIdsSize ∧ h.2 < insnsSize := by
  induction n generalizing ptr with
  | zero =>
    cases checked
    exact ⟨rfl,nofun⟩
  | succ n ih =>
    obtain ⟨type,checked⟩ := require_bind.mp checked
    obtain ⟨address,checked⟩ := require_bind.mp checked
    obtain ⟨behind,rest⟩ := ih checked
    exact ⟨behind,List.forall_mem_cons.mpr ⟨⟨type,address⟩,rest⟩⟩

theorem checkList_ok {ptr typed stop : Nat}
    (checked : checkTyped mem typeIdsSize insnsSize (decodeSignedLeb128 mem ptr).1.toInt.natAbs
      (decodeSignedLeb128 mem ptr).2 =
      .ok typed)
    (last : checkCatchAll mem insnsSize (decide ((decodeSignedLeb128 mem ptr).1.toInt ≤ 0)) typed = .ok stop) :
    stop = (readHandlers mem ptr).2 ∧ InRange typeIdsSize insnsSize (readHandlers mem ptr).1 := by
  obtain ⟨rfl,typed⟩ := checkTyped_ok checked
  by_cases all : (decodeSignedLeb128 mem ptr).1.toInt ≤ 0
  · simp only [readHandlers,if_pos all]
    rw [checkCatchAll,if_pos (decide_eq_true all)] at last
    obtain ⟨address,last⟩ := require_bind.mp last
    cases last
    refine ⟨rfl,typed,?_⟩
    rintro a ⟨⟩
    exact address
  · simp only [readHandlers,if_neg all]
    rw [checkCatchAll,if_neg (by simpa using all)] at last
    cases last
    exact ⟨rfl,typed,nofun⟩

theorem readHandlers_advances (mem : Memory) (ptr : Nat) : ptr < (readHandlers mem ptr).2 := by
  have first := signed_advances mem ptr
  have typed := readTyped_advances mem (decodeSignedLeb128 mem ptr).1.toInt.natAbs (decodeSignedLeb128 mem ptr).2
  have last := unsigned_advances mem (readTyped mem (decodeSignedLeb128 mem ptr).1.toInt.natAbs
    (decodeSignedLeb128 mem ptr).2).2
  simp only [readHandlers]
  split
  · simp only
    omega
  · simp only
    omega

theorem checkAndGetHandlerOffsets_ok {base n ptr stop : Nat} {offsets : List (BitVec 32)} (start : base ≤ ptr)
    (checked : checkAndGetHandlerOffsets mem typeIdsSize insnsSize base n ptr = .ok (offsets,stop)) :
    ptr ≤ stop ∧ ∀ offset ∈ offsets, ∃ p, base ≤ p ∧ offset = BitVec.ofNat 32 (p - base) ∧
      (readHandlers mem p).2 ≤ stop ∧
      InRange typeIdsSize insnsSize (readHandlers mem p).1 := by
  induction n generalizing ptr offsets with
  | zero =>
    cases checked
    exact ⟨Nat.le_refl _,nofun⟩
  | succ n ih =>
    obtain ⟨-,checked⟩ := require_bind.mp checked
    obtain ⟨typed,first,checked⟩ := bind_ok.mp checked
    obtain ⟨next,second,checked⟩ := bind_ok.mp checked
    obtain ⟨⟨others,behind⟩,after,checked⟩ := bind_ok.mp checked
    cases checked
    obtain ⟨rfl,ranges⟩ := checkList_ok first second
    have advances := readHandlers_advances mem ptr
    obtain ⟨below,rest⟩ := ih (by omega) after
    exact ⟨by omega,List.forall_mem_cons.mpr ⟨⟨ptr,start,rfl,below,ranges⟩,rest⟩⟩

theorem TryItem.width (t : TryItem) (small : t.startAddr.toNat < 2 ^ 31) : t.startAddr ≤ t.endAddr := by
  have narrow := t.insnCount.isLt
  rw [BitVec.le_def,endAddr,BitVec.toNat_add,BitVec.toNat_setWidth]
  omega

structure Checked (insnsSize : BitVec 32) (offsets : List (BitVec 32)) (t : TryItem) : Prop where
  width : t.startAddr ≤ t.endAddr
  start : t.startAddr < insnsSize
  stop : t.endAddr ≤ insnsSize
  handler : t.handlerOff.setWidth 32 ∈ offsets

theorem checkTries_ok {offsets : List (BitVec 32)} {n i : Nat} {lastAddr : BitVec 32} (small : insnsSize.toNat < 2 ^ 31)
    (checked : checkTries mem item insnsSize offsets n i lastAddr = .ok ()) (j : Nat) (from_ : i ≤ j)
    (below : j < i + n) :
    lastAddr ≤ (tryItem mem item j).startAddr ∧ Checked insnsSize offsets (tryItem mem item j) ∧
      ∀ k, i ≤ k → k < j → (tryItem mem item k).endAddr ≤ (tryItem mem item j).startAddr := by
  induction n generalizing i lastAddr with
  | zero => omega
  | succ n ih =>
    obtain ⟨order,checked⟩ := require_bind.mp checked
    obtain ⟨start,checked⟩ := require_bind.mp checked
    obtain ⟨handler,checked⟩ := require_bind.mp checked
    obtain ⟨stop,checked⟩ := require_bind.mp checked
    have width := (tryItem mem item i).width (Nat.lt_trans start small)
    rcases Nat.eq_or_lt_of_le from_ with rfl | more
    · exact ⟨order,⟨width,start,stop,handler⟩,fun k above less => by omega⟩
    · obtain ⟨first,item,others⟩ := ih checked more (by omega)
      refine ⟨BitVec.le_trans (BitVec.le_trans order width) first,item,fun k above less => ?_⟩
      rcases Nat.eq_or_lt_of_le above with rfl | above
      · exact first
      · exact others k above less

/-- What the tables of a code item satisfy after verification. -/
structure Accepted (mem : Memory) (size : Nat) (typeIdsSize : BitVec 32) (item : Nat) : Prop where
  header : item + 20 ≤ size
  code : insns item (insnsSizeInCodeUnits mem item).toNat ≤ size
  table : triesSize mem item ≠ 0 → getTryItems mem item (triesSize mem item).toNat ≤ size
  ordered : Ordered mem item
  lists : ∀ t ∈ tries mem item, (readHandlers mem (getCatchHandlerData mem item t.handlerOff.toNat)).2 ≤ size ∧
    InRange typeIdsSize (insnsSizeInCodeUnits mem item)
      (readHandlers mem (getCatchHandlerData mem item t.handlerOff.toNat)).1

theorem accepted_of_empty (header : item + 20 ≤ size) (code : insns item (insnsSizeInCodeUnits mem item).toNat ≤ size)
    (empty : triesSize mem item = 0) : Accepted mem size typeIdsSize item := by
  have zero : (triesSize mem item).toNat = 0 := by rw [empty]; rfl
  refine ⟨header,code,fun filled => absurd empty filled,⟨fun i inside => by omega,fun i j less inside => by omega⟩,
    fun t member => ?_⟩
  rw [tries,zero] at member
  cases member

theorem checkIntraCodeItem_ok {stop : Nat} (whole : size < 2 ^ 32)
    (checked : checkIntraCodeItem mem size typeIdsSize item = .ok stop) (inside : stop ≤ size) :
    Accepted mem size typeIdsSize item := by
  obtain ⟨header,checked⟩ := require_bind.mp checked
  obtain ⟨-,checked⟩ := require_bind.mp checked
  obtain ⟨-,checked⟩ := require_bind.mp checked
  obtain ⟨code,checked⟩ := require_bind.mp checked
  have code : insns item (insnsSizeInCodeUnits mem item).toNat ≤ size := by
    unfold insns at code ⊢
    omega
  split at checked
  next empty => exact accepted_of_empty header code empty
  next filled =>
    obtain ⟨-,checked⟩ := require_bind.mp checked
    obtain ⟨table,checked⟩ := require_bind.mp checked
    obtain ⟨-,checked⟩ := require_bind.mp checked
    obtain ⟨⟨offsets,behind⟩,lists,checked⟩ := bind_ok.mp checked
    obtain ⟨⟨⟩,items,checked⟩ := bind_ok.mp checked
    cases checked
    have small : (insnsSizeInCodeUnits mem item).toNat < 2 ^ 31 := by
      unfold insns at code
      omega
    have base := unsigned_advances mem (getCatchHandlerData mem item 0)
    obtain ⟨-,ranges⟩ := checkAndGetHandlerOffsets_ok (Nat.le_of_lt base) lists
    have each (i : Nat) (among : i < (triesSize mem item).toNat) := checkTries_ok small items i (Nat.zero_le i)
      (by omega)
    refine ⟨header,code,fun _ => ?_,⟨fun i among => (each i among).2.1.width,fun i j less among => (each j among).2.2 i
      (Nat.zero_le i) less⟩,fun t member => ?_⟩
    · simp only [getTryItems] at table ⊢
      omega
    · obtain ⟨i,among,rfl⟩ := List.mem_map.mp member
      obtain ⟨p,above,offset,ends,range⟩ := ranges _ (each i (List.mem_range.mp among)).2.1.handler
      have same : p = getCatchHandlerData mem item (tryItem mem item i).handlerOff.toNat := by
        have number := congrArg BitVec.toNat offset
        have advances := readHandlers_advances mem p
        have narrow := (tryItem mem item i).handlerOff.isLt
        simp only [BitVec.toNat_setWidth,BitVec.toNat_ofNat,getCatchHandlerData] at number above ⊢
        omega
      subst same
      exact ⟨by omega,range⟩

theorem checkCodeItems_ok {n i offset : Nat} {items : List Nat} (whole : size < 2 ^ 32)
    (checked : checkCodeItems mem size typeIdsSize n i offset = .ok items) :
    ∀ item ∈ items, Accepted mem size typeIdsSize item := by
  induction n generalizing i offset items with
  | zero =>
    cases checked
    nofun
  | succ n ih =>
    obtain ⟨-,-,checked⟩ := bind_ok.mp checked
    obtain ⟨stop,first,checked⟩ := bind_ok.mp checked
    obtain ⟨inside,checked⟩ := require_bind.mp checked
    obtain ⟨rest,after,checked⟩ := bind_ok.mp checked
    cases checked
    exact List.forall_mem_cons.mpr ⟨checkIntraCodeItem_ok whole first inside,ih after⟩

section Frame

variable (agree : ∀ a < size, mem' a = mem a)
include agree

theorem lebLength_congr (n ptr : Nat) (inside : ptr + lebLength mem n ptr ≤ size) :
    lebLength mem' n ptr = lebLength mem n ptr := by
  induction n generalizing ptr with
  | zero => rfl
  | succ n ih =>
    have positive := lebLength_pos mem n ptr
    have same := agree ptr (by omega)
    rw [lebLength] at inside
    rw [lebLength,lebLength,same]
    split at inside
    next last => rw [if_pos last,if_pos last]
    next more => rw [if_neg more,if_neg more,ih (ptr + 1) (by omega)]

theorem payload_congr (n ptr : Nat) (inside : ptr + n ≤ size) : payload mem' ptr n = payload mem ptr n := by
  induction n generalizing ptr with
  | zero => rfl
  | succ n ih => rw [payload,payload,agree ptr (by omega),ih (ptr + 1) (by omega)]

theorem unsigned_congr (ptr : Nat) (inside : (decodeUnsignedLeb128 mem ptr).2 ≤ size) :
    decodeUnsignedLeb128 mem' ptr = decodeUnsignedLeb128 mem ptr := by
  rw [decodeUnsigned_eq] at inside
  rw [decodeUnsigned_eq,decodeUnsigned_eq,lebLength_congr agree 5 ptr inside,payload_congr agree _ ptr inside]

theorem signed_congr (ptr : Nat) (inside : (decodeSignedLeb128 mem ptr).2 ≤ size) :
    decodeSignedLeb128 mem' ptr = decodeSignedLeb128 mem ptr := by
  rw [decodeSigned_eq] at inside
  have unsigned := unsigned_congr agree ptr inside
  rw [decodeUnsigned_eq] at inside
  rw [decodeSigned_eq,decodeSigned_eq,unsigned,lebLength_congr agree 5 ptr inside]

theorem readTyped_congr (n ptr : Nat) (inside : (readTyped mem n ptr).2 ≤ size) :
    readTyped mem' n ptr = readTyped mem n ptr := by
  induction n generalizing ptr with
  | zero => rfl
  | succ n ih =>
    have second := unsigned_advances mem (decodeUnsignedLeb128 mem ptr).2
    have rest := readTyped_advances mem n (decodeUnsignedLeb128 mem (decodeUnsignedLeb128 mem ptr).2).2
    simp only [readTyped] at inside ⊢
    rw [unsigned_congr agree ptr (by omega),unsigned_congr agree _ (by omega : _ ≤ size),ih _ inside]

theorem readHandlers_congr (ptr : Nat) (inside : (readHandlers mem ptr).2 ≤ size) :
    readHandlers mem' ptr = readHandlers mem ptr := by
  have typed := readTyped_advances mem (decodeSignedLeb128 mem ptr).1.toInt.natAbs (decodeSignedLeb128 mem ptr).2
  have last := unsigned_advances mem (readTyped mem (decodeSignedLeb128 mem ptr).1.toInt.natAbs
    (decodeSignedLeb128 mem ptr).2).2
  by_cases all : (decodeSignedLeb128 mem ptr).1.toInt ≤ 0
  · simp only [readHandlers,if_pos all] at inside
    simp only [readHandlers]
    rw [signed_congr agree ptr (by omega),readTyped_congr agree _ _ (by omega),unsigned_congr agree _ inside]
  · simp only [readHandlers,if_neg all] at inside
    simp only [readHandlers,signed_congr agree ptr (by omega),readTyped_congr agree _ _ inside,if_neg all]

theorem read16_congr (a : Nat) (inside : a + 2 ≤ size) : read16 mem' a = read16 mem a := by
  rw [read16,read16,agree a (by omega),agree (a + 1) (by omega)]

theorem read32_congr (a : Nat) (inside : a + 4 ≤ size) : read32 mem' a = read32 mem a := by
  rw [read32,read32,agree a (by omega),agree (a + 1) (by omega),agree (a + 2) (by omega),agree (a + 3) (by omega)]

theorem Accepted.fields_congr (accepted : Accepted mem size typeIdsSize item) :
    triesSize mem' item = triesSize mem item ∧ insnsSizeInCodeUnits mem' item = insnsSizeInCodeUnits mem item := by
  have header := accepted.header
  exact ⟨read16_congr agree _ (by omega),read32_congr agree _ (by omega)⟩

theorem Accepted.tryItem_congr (accepted : Accepted mem size typeIdsSize item) (i : Nat)
    (among : i < (triesSize mem item).toNat) :
    tryItem mem' item i = tryItem mem item i := by
  have filled : triesSize mem item ≠ 0 := by
    intro empty
    rw [empty] at among
    cases among
  have table := accepted.table filled
  have place : getTryItems mem' item i = getTryItems mem item i := by
    rw [getTryItems,getTryItems,(accepted.fields_congr agree).2]
  have behind : getTryItems mem item i + 8 ≤ size := by
    unfold getTryItems at table ⊢
    omega
  rw [tryItem,tryItem,place,read32_congr agree _ (by omega),read16_congr agree _ (by omega),
    read16_congr agree _ (by omega)]

theorem Accepted.tries_congr (accepted : Accepted mem size typeIdsSize item) : tries mem' item = tries mem item := by
  rw [tries,tries,(accepted.fields_congr agree).1]
  exact List.map_congr_left fun i among => accepted.tryItem_congr agree i (List.mem_range.mp among)

theorem Accepted.ordered_congr (accepted : Accepted mem size typeIdsSize item) : Ordered mem' item := by
  obtain ⟨width,apart⟩ := accepted.ordered
  refine ⟨fun i among => ?_,fun i j less among => ?_⟩
  · rw [(accepted.fields_congr agree).1] at among
    rw [accepted.tryItem_congr agree i among]
    exact width i among
  · rw [(accepted.fields_congr agree).1] at among
    rw [accepted.tryItem_congr agree i (by omega),accepted.tryItem_congr agree j among]
    exact apart i j less among

end Frame

section Lookup

variable {κ : Type} (resolve : BitVec 16 → Option κ) (isAssignableFrom : κ → Bool)

theorem firstTaken_or (handlers : List (BitVec 16 × BitVec 32)) :
    firstTaken resolve isAssignableFrom handlers = kDexNoIndex ∨
      ∃ h ∈ handlers, firstTaken resolve isAssignableFrom handlers = h.2 := by
  unfold firstTaken
  cases found : handlers.find? fun h => catches resolve isAssignableFrom h.1 with
  | none => exact .inl rfl
  | some h => exact .inr ⟨h,List.mem_of_find?_eq_some found,rfl⟩

theorem InRange.presented {handlers : Handlers} (range : InRange typeIdsSize insnsSize handlers) :
    ∀ h ∈ handlers.presented, h.2 < insnsSize := by
  intro h member
  rcases List.mem_append.mp member with typed | last
  · obtain ⟨g,among,rfl⟩ := List.mem_map.mp typed
    exact (range.typed g among).2
  · obtain ⟨a,among,rfl⟩ := List.mem_map.mp last
    exact range.catchAll a (Option.mem_toList.mp among)

theorem Accepted.found (accepted : Accepted mem size typeIdsSize item) (dexPc : BitVec 32) :
    (findCatchBlock resolve isAssignableFrom mem item dexPc).1 = kDexNoIndex ∨
      (findCatchBlock resolve isAssignableFrom mem item dexPc).1 < insnsSizeInCodeUnits mem item := by
  rw [findCatchBlock_fst _ _ accepted.ordered]
  cases found : (tries mem item).find? fun t => decide (t.Covers dexPc) with
  | none => exact .inl rfl
  | some t =>
    have range := (accepted.lists t (List.mem_of_find?_eq_some found)).2
    refine (firstTaken_or resolve isAssignableFrom _).imp_right ?_
    rintro ⟨h,member,same⟩
    rw [Option.map_some,Option.getD_some,same]
    exact range.presented h member

end Lookup

theorem Handlers.select_inRange {κ : Type} {resolve : BitVec 32 → Option κ} {isAssignableFrom : κ → Bool}
    {handlers : Handlers} (range : InRange typeIdsSize insnsSize handlers) {a : BitVec 32}
    (taken : handlers.select resolve isAssignableFrom = some a) :
    a < insnsSize := by
  rw [select,Option.or_eq_some_iff] at taken
  rcases taken with typed | ⟨-,last⟩
  · obtain ⟨h,found,rfl⟩ := Option.map_eq_some_iff.mp typed
    exact (range.typed h (List.mem_of_find?_eq_some found)).2
  · exact range.catchAll a last

/-- In every code item that the verifier accepts, at every dex pc and for every exception: `FindCatchBlock` returns the
address of the handler that the tables mean, inside the method, or `kDexNoIndex` if there is none. Type indexes have to
fit into 16 bits, which the verifier does not check. -/
theorem findCatchBlock_correct {κ : Type} {n i offset : Nat} {items : List Nat}
    (checked : checkCodeItems mem size typeIdsSize n i offset = .ok items) (whole : size < 2 ^ 32)
    (types : typeIdsSize.toNat ≤ 65535) (member : item ∈ items) (resolve : BitVec 32 → Option κ)
    (isAssignableFrom : κ → Bool) (dexPc : BitVec 32) :
    (findCatchBlock (narrowed resolve) isAssignableFrom mem item dexPc).1 =
        (handlerFor resolve isAssignableFrom mem item dexPc).getD kDexNoIndex ∧
      ∀ a ∈ handlerFor resolve isAssignableFrom mem item dexPc, a < insnsSizeInCodeUnits mem item ∧
        a ≠ kDexNoIndex := by
  have accepted := checkCodeItems_ok whole checked item member
  refine ⟨findCatchBlock_eq resolve isAssignableFrom accepted.ordered (fun t among h typed => ?_) dexPc,
    fun a found => ?_⟩
  · exact Nat.lt_of_lt_of_le ((accepted.lists t among).2.typed h typed).1 types
  · obtain ⟨t,covering,taken⟩ := Option.bind_eq_some_iff.mp found
    have inside := Handlers.select_inRange (accepted.lists t (List.mem_of_find?_eq_some covering)).2 taken
    refine ⟨inside,?_⟩
    rintro rfl
    have code := accepted.code
    have large : kDexNoIndex.toNat = 4294967295 := by decide
    rw [BitVec.lt_def,large] at inside
    unfold insns at code
    omega

/-- A code item of five code units with two try items. The first has a handler for one type at 4, the second one for
everything. -/
def sampleFile : Memory := fun a =>
  [1,0,0,0,0,0,2,0,0,0,0,0,5,0,0,0,  0,0,0,0,0,0,0,0,0x0D,0,  0,0,
    0,0,0,0,2,0,1,0,  2,0,0,0,2,0,4,0,  2,  1,3,4,  0,4].getD a 0

theorem sampleFile_checked : checkCodeItems sampleFile 50 4 1 0 0 = .ok [0] := rfl

theorem findCatchBlock_correct_sample :
    checkCodeItems sampleFile 50 4 1 0 0 = .ok [0] ∧ handlerFor some (· == 3) sampleFile 0 1 = some 4 ∧
    ((findCatchBlock (narrowed some) (· == 3) sampleFile 0 1).1 =
        (handlerFor some (· == 3) sampleFile 0 1).getD kDexNoIndex ∧
      ∀ a ∈ handlerFor some (· == 3) sampleFile 0 1, a < insnsSizeInCodeUnits sampleFile 0 ∧ a ≠ kDexNoIndex) :=
  ⟨sampleFile_checked,by decide +kernel,findCatchBlock_correct sampleFile_checked (by decide) (by decide)
    (List.mem_singleton.mpr rfl) some (· == 3) 1⟩

/-- Whatever lies behind the file, the lookup is the same: it reads nothing there. -/
theorem findCatchBlock_reads_file {κ : Type} {n i offset : Nat} {items : List Nat}
    (checked : checkCodeItems mem size typeIdsSize n i offset = .ok items) (whole : size < 2 ^ 32)
    (member : item ∈ items) (agree : ∀ a < size, mem' a = mem a) (resolve : BitVec 16 → Option κ)
    (isAssignableFrom : κ → Bool) (dexPc : BitVec 32) :
    findCatchBlock resolve isAssignableFrom mem' item dexPc =
      findCatchBlock resolve isAssignableFrom mem item dexPc := by
  have accepted := checkCodeItems_ok whole checked item member
  have same : (findCatchBlock resolve isAssignableFrom mem' item dexPc).1 =
      (findCatchBlock resolve isAssignableFrom mem item dexPc).1 := by
    rw [findCatchBlock_fst _ _ accepted.ordered,findCatchBlock_fst _ _ (accepted.ordered_congr agree),
      accepted.tries_congr agree]
    cases found : (tries mem item).find? fun t => decide (t.Covers dexPc) with
    | none => rw [Option.map_none,Option.map_none]
    | some t =>
      obtain ⟨fields,length⟩ := accepted.fields_congr agree
      have place : getCatchHandlerData mem' item t.handlerOff.toNat =
        getCatchHandlerData mem item t.handlerOff.toNat := by
        rw [getCatchHandlerData,getCatchHandlerData,fields,getTryItems,getTryItems,length]
      simp only [Option.map_some,Option.getD_some]
      rw [place,readHandlers_congr agree _ (accepted.lists t (List.mem_of_find?_eq_some found)).1]
  refine Prod.ext same ?_
  rw [findCatchBlock_snd,findCatchBlock_snd,same]
  rcases accepted.found resolve isAssignableFrom dexPc with missing | inside
  · rw [missing,bne_self_eq_false,Bool.false_and,Bool.false_and]
  · have code := accepted.code
    rw [BitVec.lt_def] at inside
    rw [agree]
    unfold insns at code ⊢
    omega

theorem findCatchBlock_reads_file_sample :
    checkCodeItems sampleFile 50 4 1 0 0 = .ok [0] ∧
    findCatchBlock (narrowed some) (· == 3) (fun a => if a < 50 then sampleFile a else 0xFF) 0 1 =
      findCatchBlock (narrowed some) (· == 3) sampleFile 0 1 :=
  ⟨sampleFile_checked,findCatchBlock_reads_file sampleFile_checked (by decide) (List.mem_singleton.mpr rfl)
    (fun a inside => if_pos inside) (narrowed some) (· == 3) 1⟩

end Aatt.Dex
