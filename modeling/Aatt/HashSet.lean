import Mathlib.Data.Multiset.AddSub
import Aatt.Lib.Probing
import Aatt.Lib.Transition

/-! `HashSet`: open addressing with linear probing, without tombstones. The class table and the intern table are such
sets. The load factors are 0.5 and 0.9; products with them are exact as far as their whole part goes. A loop that would
not end gives no result. -/
namespace Aatt

open Aatt.Lib

structure HashSet (α : Type) where
  numElements : Nat
  numBuckets : Nat
  elementsUntilExpand : Nat
  data : Nat → Option α

namespace HashSet

variable {α : Type}

/-- `Clear`, which the constructor calls. -/
def clear : HashSet α := ⟨0,1,0,fun _ => none⟩

def indexForHash (s : HashSet α) (hash : Nat) : Nat := hash % s.numBuckets

def firstAvailableSlot (s : HashSet α) (index : Nat) : Option Nat :=
  Probing.firstFrom s.numBuckets (fun i => (s.data i).isNone) s.numBuckets index

def findLoop (s : HashSet α) (pred : α → Bool) : Nat → Nat → Option Nat
  | 0,_ => none
  | fuel + 1,index =>
    match s.data index with
    | none => some s.numBuckets
    | some slot => if pred slot then some index else findLoop s pred fuel (Probing.next s.numBuckets index)

/-- `FindIndex`: the number of buckets stands for the end. -/
def findIndex (s : HashSet α) (pred : α → Bool) (hash : Nat) : Option Nat :=
  findLoop s pred s.numBuckets (s.indexForHash hash)

def place (hash : α → Nat) (s : HashSet α) (element : α) : Option (HashSet α) := do
  let index ← s.firstAvailableSlot (s.indexForHash (hash element))
  some { s with data := Function.update s.data index (some element) }

/-- What `Resize` does with an old slot. -/
def reinsert (hash : α → Nat) (oldData : Nat → Option α) (t : HashSet α) (i : Nat) : Option (HashSet α) :=
  match oldData i with
  | none => some t
  | some element => t.place hash element

def resize (hash : α → Nat) (s : HashSet α) (newSize : Nat) : Option (HashSet α) :=
  (List.range s.numBuckets).foldlM (reinsert hash s.data) { s with numBuckets := newSize, data := fun _ => none }

def kMinBuckets : Nat := 1000

def expand (hash : α → Nat) (s : HashSet α) : Option (HashSet α) := do
  let minIndex := s.numElements * 2
  let t ← s.resize hash (if minIndex < kMinBuckets then kMinBuckets else minIndex)
  some { t with elementsUntilExpand := t.numBuckets * 9 / 10 }

def makeRoom (hash : α → Nat) (s : HashSet α) : Option (HashSet α) :=
  if s.elementsUntilExpand ≤ s.numElements then s.expand hash else some s

/-- `Insert`, and `InsertWithHash` with the right hash. Duplicates are allowed. -/
def insert (hash : α → Nat) (s : HashSet α) (element : α) : Option (HashSet α) := do
  let s ← s.makeRoom hash
  let s ← s.place hash element
  some { s with numElements := s.numElements + 1 }

/-- The loop of `Erase`: the slots at its end, and whether the first hole has been filled. -/
def eraseLoop (n : Nat) (hash : α → Nat) : Nat → (Nat → Option α) → Nat → Nat → Bool → Option ((Nat → Option α) × Bool)
  | 0,_,_,_,_ => none
  | fuel + 1,data,emptyIndex,index,filled =>
    let nextIndex := Probing.next n index
    match data nextIndex with
    | none => some (Function.update data emptyIndex none,filled)
    | some nextElement =>
      let nextIdealIndex := hash nextElement % n
      let unwrappedNextIndex := if nextIndex < emptyIndex then nextIndex + n else nextIndex
      let unwrappedNextIdealIndex := if nextIdealIndex < emptyIndex then nextIdealIndex + n else nextIdealIndex
      if unwrappedNextIdealIndex ≤ emptyIndex ∨ unwrappedNextIndex < unwrappedNextIdealIndex then
        eraseLoop n hash fuel (Function.update data emptyIndex (some nextElement)) nextIndex nextIndex true
      else eraseLoop n hash fuel data emptyIndex nextIndex filled

/-- From an index on, the first slot that is not free, or the end. -/
def skipFree (s : HashSet α) (index : Nat) : Nat :=
  if index < s.numBuckets ∧ (s.data index).isNone then s.skipFree (index + 1) else index
  termination_by s.numBuckets - index

def nextNonEmptySlot (s : HashSet α) (index : Nat) : Nat := s.skipFree (index + 1)

/-- The iterator that is returned points to the element in the same slot, or to the next one. -/
def erase (hash : α → Nat) (s : HashSet α) (index : Nat) : Option (HashSet α × Nat) := do
  let (data,filled) ← eraseLoop s.numBuckets hash s.numBuckets s.data index index false
  let t : HashSet α := { s with data := data, numElements := s.numElements - 1 }
  some (t,if filled then index else t.nextNonEmptySlot index)

def begin (s : HashSet α) : Nat :=
  if s.numBuckets ≠ 0 ∧ (s.data 0).isNone then s.nextNonEmptySlot 0 else 0

theorem le_skipFree (s : HashSet α) (index : Nat) : index ≤ s.skipFree index := by
  induction index using skipFree.induct s with
  | case1 index free ih =>
    rw [skipFree,if_pos free]
    omega
  | case2 index stop => rw [skipFree,if_neg stop]

/-- What a loop over the set sees from an iterator on. -/
def visit (s : HashSet α) (index : Nat) : List α :=
  if index < s.numBuckets then (s.data index).toList ++ s.visit (s.nextNonEmptySlot index) else []
  termination_by s.numBuckets - index
  decreasing_by
    have := s.le_skipFree (index + 1)
    unfold nextNonEmptySlot
    omega

def contents (s : HashSet α) : Multiset α := Probing.contents s.numBuckets s.data

structure Valid (hash : α → Nat) (s : HashSet α) : Prop where
  unbroken : Probing.Unbroken s.numBuckets (fun x => hash x % s.numBuckets) s.data
  counted : s.numElements = s.contents.card
  limit : s.numElements ≤ s.elementsUntilExpand
  below : s.elementsUntilExpand < s.numBuckets

variable {hash : α → Nat} {s : HashSet α}

theorem valid_clear : Valid hash (clear : HashSet α) where
  unbroken := Probing.Unbroken.empty 1 _
  counted := (congrArg Multiset.card (Probing.contents_empty 1)).symm
  limit := Nat.le_refl 0
  below := Nat.zero_lt_one

theorem contents_clear : (clear : HashSet α).contents = 0 := Probing.contents_empty 1

theorem Valid.index_lt (valid : Valid hash s) (h : Nat) : h % s.numBuckets < s.numBuckets :=
  Nat.mod_lt _ (Nat.zero_lt_of_lt valid.below)

theorem Valid.free (valid : Valid hash s) : ∃ f < s.numBuckets, s.data f = none :=
  Probing.exists_free (valid.counted ▸ Nat.lt_of_le_of_lt valid.limit valid.below)

theorem place_spec (unbroken : Probing.Unbroken s.numBuckets (fun x => hash x % s.numBuckets) s.data)
    (fewer : s.contents.card < s.numBuckets) (x : α) :
    ∃ data, s.place hash x = some { s with data := data } ∧
      Probing.Unbroken s.numBuckets (fun x => hash x % s.numBuckets) data ∧
      Probing.contents s.numBuckets data = x ::ₘ s.contents := by
  obtain ⟨f,goal,free⟩ := Probing.exists_free fewer
  have start : hash x % s.numBuckets < s.numBuckets := Nat.mod_lt _ (Nat.zero_lt_of_lt goal)
  obtain ⟨i,inside,found,empty,passed⟩ := Probing.firstFrom_spec (fun i => (s.data i).isNone) start goal
    (by rw [free]; rfl)
  refine ⟨Function.update s.data i (some x),?_,unbroken.fill fun j within before => ?_,
    Probing.contents_insert inside (Option.isNone_iff_eq_none.mp empty) x⟩
  · rw [place,firstAvailableSlot,indexForHash,found]
    rfl
  · exact Option.isNone_eq_false_iff.mp (passed j within before) |> Option.isSome_iff_ne_none.mp

theorem reinsert_spec (hash : α → Nat) (oldData : Nat → Option α) (slots : List Nat) (t : HashSet α)
    (unbroken : Probing.Unbroken t.numBuckets (fun x => hash x % t.numBuckets) t.data)
    (fits : t.contents.card + (slots.filterMap oldData).length ≤ t.numBuckets) :
    ∃ data, slots.foldlM (reinsert hash oldData) t = some { t with data := data } ∧
      Probing.Unbroken t.numBuckets (fun x => hash x % t.numBuckets) data ∧
      Probing.contents t.numBuckets data = (slots.filterMap oldData : List α) + t.contents := by
  induction slots generalizing t with
  | nil => exact ⟨t.data,rfl,unbroken,(Multiset.zero_add _).symm⟩
  | cons i rest ih =>
    rw [List.foldlM_cons,reinsert]
    cases found : oldData i with
    | none =>
      rw [List.filterMap_cons_none found] at fits ⊢
      exact ih t unbroken fits
    | some x =>
      rw [List.filterMap_cons_some found,List.length_cons] at fits
      obtain ⟨placed,eq,kept,more⟩ := place_spec unbroken (by omega) x
      have card : (contents { t with data := placed }).card = t.contents.card + 1 :=
        (congrArg Multiset.card more).trans (Multiset.card_cons ..)
      obtain ⟨data,run,unbroken',all⟩ := ih { t with data := placed } kept (by rw [card]; dsimp only; omega)
      refine ⟨data,?_,unbroken',?_⟩
      · dsimp only
        rw [eq]
        exact run
      · refine all.trans ((congrArg (_ + ·) more).trans ?_)
        rw [List.filterMap_cons_some found,Multiset.add_cons,← Multiset.cons_coe,Multiset.cons_add]

theorem resize_spec (hash : α → Nat) (newSize : Nat) (fits : s.contents.card ≤ newSize) :
    ∃ data, s.resize hash newSize = some { s with numBuckets := newSize, data := data } ∧
      Probing.Unbroken newSize (fun x => hash x % newSize) data ∧ Probing.contents newSize data = s.contents := by
  obtain ⟨data,run,unbroken,all⟩ := reinsert_spec hash s.data (List.range s.numBuckets)
    { s with numBuckets := newSize, data := fun _ => none } (Probing.Unbroken.empty newSize _) (by
      rw [contents,Probing.contents_empty]
      exact (Nat.zero_add _).trans_le fits)
  refine ⟨data,run,unbroken,all.trans ?_⟩
  rw [contents,Probing.contents_empty,Multiset.add_zero]
  rfl

theorem Valid.expand_spec (valid : Valid hash s) :
    ∃ t, s.expand hash = some t ∧ Valid hash t ∧ t.contents = s.contents ∧ t.numElements < t.elementsUntilExpand := by
  have counted := valid.counted
  obtain ⟨data,run,unbroken,same⟩ := resize_spec (s := s) hash
    (if s.numElements * 2 < kMinBuckets then kMinBuckets else s.numElements * 2) (by
      unfold kMinBuckets
      split <;> omega)
  refine ⟨_,congrArg (Option.bind · _) run,⟨unbroken,counted.trans (congrArg _ same.symm),?_,?_⟩,same,?_⟩
  all_goals
    dsimp only
    unfold kMinBuckets
    split <;> omega

theorem Valid.insert_spec (valid : Valid hash s) (x : α) :
    ∃ t, s.insert hash x = some t ∧ Valid hash t ∧ t.contents = x ::ₘ s.contents := by
  obtain ⟨roomy,run,kept,same,room⟩ : ∃ t, s.makeRoom hash = some t ∧ Valid hash t ∧ t.contents = s.contents ∧
      t.numElements < t.elementsUntilExpand := by
    unfold makeRoom
    split
    · exact valid.expand_spec
    · exact ⟨s,rfl,valid,rfl,by omega⟩
  have below := kept.below
  obtain ⟨data,placed,unbroken,more⟩ := place_spec kept.unbroken (kept.counted ▸ by omega) x
  refine ⟨{ roomy with data := data, numElements := roomy.numElements + 1 },?_,⟨unbroken,?_,room,below⟩,?_⟩
  · rw [insert,run,Option.bind_eq_bind,Option.bind_some,placed]
    rfl
  · rw [kept.counted]
    exact ((congrArg Multiset.card more).trans (Multiset.card_cons ..)).symm
  · rw [← same]
    exact more

theorem findLoop_eq (s : HashSet α) (pred : α → Bool) (fuel index : Nat) : s.findLoop pred fuel index =
    (Probing.firstFrom s.numBuckets (fun i => (s.data i).all pred) fuel index).map fun i =>
      if (s.data i).isNone then s.numBuckets else i := by
  induction fuel generalizing index with
  | zero => rfl
  | succ fuel ih =>
    rw [findLoop,Probing.firstFrom]
    cases found : s.data index with
    | none => simp [found]
    | some x =>
      cases fits : pred x with
      | true => simp [found,fits]
      | false => simp [ih,fits]

theorem Valid.find_spec (valid : Valid hash s) (pred : α → Bool) (h : Nat) (agrees : ∀ x, pred x = true → hash x = h) :
    (s.findIndex pred h = some s.numBuckets ∧ ∀ x ∈ s.contents, pred x = false) ∨
    ∃ i < s.numBuckets, s.findIndex pred h = some i ∧ ∃ x, s.data i = some x ∧ pred x = true := by
  obtain ⟨f,goal,free⟩ := valid.free
  obtain ⟨i,inside,found,stops,passed⟩ := Probing.firstFrom_spec (fun i => (s.data i).all pred) (valid.index_lt h) goal
    (by rw [free]; rfl)
  rw [findIndex,findLoop_eq,indexForHash,found]
  cases here : s.data i with
  | some x =>
    rw [here] at stops
    exact .inr ⟨i,inside,by simp [here],x,here,stops⟩
  | none =>
    refine .inl ⟨by simp [here],fun x member => Bool.eq_false_iff.mpr fun fits => ?_⟩
    obtain ⟨j,within,present⟩ := Probing.mem_contents.mp member
    obtain rfl := agrees x fits
    rw [valid.unbroken.missed_none (valid.index_lt _) inside here passed within present] at fits
    cases fits

/-- The test of `Erase`: the ideal slot does not lie behind the hole. -/
theorem unwrapped_iff {n e k ideal : Nat} (ideal_lt : ideal < n) :
    ((if ideal < e then ideal + n else ideal) ≤ e ∨
        (if k < e then k + n else k) < (if ideal < e then ideal + n else ideal)) ↔
      Probing.dist n e ideal = 0 ∨ Probing.dist n e k < Probing.dist n e ideal := by
  unfold Probing.dist
  split_ifs <;> omega

theorem eraseLoop_spec {n fuel f e k : Nat} {data : Nat → Option α} (filled : Bool)
    (hole : Probing.Hole n (fun x => hash x % n) data e k) (start : e < n) (inside : k < n) (goal : f < n)
    (free : data f = none) (enough : Probing.dist n k f ≤ fuel) :
    ∃ data' filled', eraseLoop n hash fuel data e k filled = some (data',filled') ∧
      Probing.Unbroken n (fun x => hash x % n) data' ∧
      Probing.contents n data' = Probing.contents n (Function.update data e none) := by
  have ideal_lt (x : α) : hash x % n < n := Nat.mod_lt _ (Nat.zero_lt_of_lt start)
  induction fuel generalizing data e k filled with
  | zero =>
    have there := Probing.eq_of_dist inside inside goal ((Probing.dist_self n k).trans (Nat.le_zero.mp enough).symm)
    exact absurd (there ▸ free) (hole.occupied k inside (Nat.le_refl _))
  | succ fuel ih =>
    have apart : k ≠ f := fun there => hole.occupied k inside (Nat.le_refl _) (there ▸ free)
    have nearer := Probing.next_dist inside goal apart
    have more : Probing.dist n e k + 1 < n := Nat.lt_of_le_of_lt (hole.ahead goal free) (Probing.dist_lt start goal)
    rw [eraseLoop]
    cases found : data (Probing.next n k) with
    | none => exact ⟨_,filled,rfl,hole.close start inside more found ideal_lt,rfl⟩
    | some x =>
      dsimp only
      by_cases needed : Probing.dist n e (hash x % n) = 0 ∨
        Probing.dist n e (Probing.next n k) < Probing.dist n e (hash x % n)
      · rw [if_pos ((unwrapped_iff (ideal_lt x)).mpr needed)]
        have kept : Function.update data e (some x) f = none := by
          rw [Function.update_of_ne,free]
          rintro rfl
          exact hole.occupied f start (by rw [Probing.dist_self]; exact Nat.zero_le _) free
        have moved : Probing.next n k ≠ e := by
          intro around
          have step := Probing.dist_next start inside more
          rw [around,Probing.dist_self] at step
          omega
        obtain ⟨data',filled',run,unbroken,same⟩ := ih true (hole.move start inside more found (ideal_lt x) needed)
          (Probing.next_lt inside) (Probing.next_lt inside) kept (by omega)
        exact ⟨data',filled',run,unbroken,same.trans (Probing.contents_move start (Probing.next_lt inside) moved found)⟩
      · rw [if_neg (mt (unwrapped_iff (ideal_lt x)).mp needed)]
        rw [not_or] at needed
        exact ih filled (hole.skip start inside more found (ideal_lt x) (Nat.pos_of_ne_zero needed.1)
          (Nat.not_lt.mp needed.2))
          start (Probing.next_lt inside) free (by omega)

theorem Valid.erase_spec (valid : Valid hash s) {i : Nat} {x : α} (inside : i < s.numBuckets)
    (found : s.data i = some x) :
    ∃ t it, s.erase hash i = some (t,it) ∧ Valid hash t ∧ s.contents = x ::ₘ t.contents := by
  obtain ⟨f,goal,free⟩ := valid.free
  have hole := valid.unbroken.hole inside (by rw [found]; exact Option.some_ne_none x)
  obtain ⟨data,filled,run,unbroken,same⟩ := eraseLoop_spec false hole inside inside goal free
    (Nat.le_of_lt (Probing.dist_lt inside goal))
  have less : s.contents = x ::ₘ Probing.contents s.numBuckets data := same ▸ Probing.contents_remove inside found
  have limit := valid.limit
  have counted := valid.counted
  rw [less,Multiset.card_cons] at counted
  have result : s.erase hash i = some ({ s with data := data, numElements := s.numElements - 1 },
      if filled then i else nextNonEmptySlot { s with data := data, numElements := s.numElements - 1 } i) := by
    rw [erase,run]
    rfl
  exact ⟨_,_,result,⟨unbroken,Nat.sub_eq_of_eq_add counted,Nat.le_trans (Nat.sub_le ..) limit,valid.below⟩,less⟩

theorem Valid.replace_spec (valid : Valid hash s) {i : Nat} {x y : α} (inside : i < s.numBuckets)
    (found : s.data i = some x) (same : hash y = hash x) :
    Valid hash { s with data := Function.update s.data i (some y) } ∧
      ∃ rest, s.contents = x ::ₘ rest ∧ contents { s with data := Function.update s.data i (some y) } = y ::ₘ rest := by
  have before := Probing.contents_remove inside found
  have after := Probing.contents_update_some s.data inside y
  refine ⟨⟨valid.unbroken.replace inside found (congrArg (· % _) same),?_,valid.limit,valid.below⟩,_,before,after⟩
  rw [contents,after,Multiset.card_cons,valid.counted,contents,before,Multiset.card_cons]

theorem skipFree_spec (s : HashSet α) (index : Nat) :
    (List.range' index (s.numBuckets - index)).filterMap s.data =
      (List.range' (s.skipFree index) (s.numBuckets - s.skipFree index)).filterMap s.data := by
  induction index using skipFree.induct s with
  | case1 index free ih =>
    rw [skipFree,if_pos free,← ih]
    obtain ⟨more,here⟩ := free
    have split : s.numBuckets - index = s.numBuckets - (index + 1) + 1 := by omega
    rw [split,List.range'_succ,List.filterMap_cons_none (Option.isNone_iff_eq_none.mp here)]
  | case2 index stop => rw [skipFree,if_neg stop]

theorem visit_eq (s : HashSet α) (index : Nat) :
    s.visit index = (List.range' index (s.numBuckets - index)).filterMap s.data := by
  induction index using visit.induct s with
  | case1 index more ih =>
    have split : s.numBuckets - index = s.numBuckets - (index + 1) + 1 := by omega
    rw [visit,if_pos more,ih,nextNonEmptySlot,← skipFree_spec,split,List.range'_succ,List.filterMap_cons]
    cases s.data index <;> rfl
  | case2 index stop =>
    rw [visit,if_neg stop,Nat.sub_eq_zero_of_le (Nat.not_lt.mp stop)]
    rfl

theorem visit_begin (s : HashSet α) : (s.visit s.begin : Multiset α) = s.contents := by
  have all : s.visit s.begin = (List.range' 0 (s.numBuckets - 0)).filterMap s.data := by
    unfold begin
    split
    · next free =>
      have skipped : s.skipFree 0 = s.skipFree (0 + 1) := by
        rw [skipFree,if_pos ⟨Nat.pos_of_ne_zero free.1,free.2⟩]
      rw [visit_eq,nextNonEmptySlot,← skipped,← skipFree_spec]
    · exact visit_eq s 0
  rw [all,Nat.sub_zero,← List.range_eq_range']
  rfl

/-- `Verify` takes each element out and looks where it would go. -/
def verifySlot (hash : α → Nat) (s : HashSet α) (errors i : Nat) : Option Nat :=
  match s.data i with
  | none => some errors
  | some temp => do
    let firstSlot ← firstAvailableSlot { s with data := Function.update s.data i none } (s.indexForHash (hash temp))
    some (if i ≠ firstSlot then errors + 1 else errors)

def verify (hash : α → Nat) (s : HashSet α) : Option Nat := (List.range s.numBuckets).foldlM (s.verifySlot hash) 0

theorem Valid.verifySlot_eq (valid : Valid hash s) (errors : Nat) {i : Nat} (inside : i < s.numBuckets) :
    s.verifySlot hash errors i = some errors := by
  rw [verifySlot]
  cases found : s.data i with
  | none => rfl
  | some x =>
    have start := valid.index_lt (hash x)
    obtain ⟨k,within,first,empty,passed⟩ := Probing.firstFrom_spec
      (fun j => (Function.update s.data i none j).isNone) start inside (by rw [Function.update_self]; rfl)
    have same : k = i := by
      rcases Nat.lt_trichotomy (Probing.dist s.numBuckets (hash x % s.numBuckets) k)
        (Probing.dist s.numBuckets (hash x % s.numBuckets) i) with before | same | after
      · by_contra other
        rw [Function.update_of_ne other] at empty
        exact valid.unbroken i inside x found k within before (Option.isNone_iff_eq_none.mp empty)
      · exact Probing.eq_of_dist start within inside same
      · have missed := passed i inside after
        rw [Function.update_self] at missed
        cases missed
    have slot : firstAvailableSlot { s with data := Function.update s.data i none } (s.indexForHash (hash x)) =
      some i :=
      same ▸ first
    simp [slot]

theorem Valid.verify_eq (valid : Valid hash s) : s.verify hash = some 0 := by
  have all (slots : List Nat) (inside : ∀ i ∈ slots, i < s.numBuckets) : slots.foldlM (s.verifySlot hash) 0 =
    some 0 := by
    induction slots with
    | nil => rfl
    | cons i rest ih =>
      rw [List.foldlM_cons,valid.verifySlot_eq 0 (inside i List.mem_cons_self)]
      exact ih fun j member => inside j (List.mem_cons_of_mem i member)
  exact all _ fun i member => List.mem_range.mp member

inductive Operation (α : Type) where
  | insert (element : α)
  | erase (pred : α → Bool) (hash : Nat)
  | clear

/-- `erase` is `Find`, and `Erase` of what it has found. -/
def perform (hash : α → Nat) (operation : Operation α) (s : HashSet α) : Option (HashSet α) :=
  match operation with
  | .insert element => s.insert hash element
  | .erase pred h => do
    let index ← s.findIndex pred h
    if index = s.numBuckets then some s else (s.erase hash index).map Prod.fst
  | .clear => some clear

/-- A key has the hash of the elements that it fits. -/
def Operation.Sound (hash : α → Nat) : Operation α → Prop
  | .erase pred h => ∀ x, pred x = true → hash x = h
  | _ => True

inductive Does : List (Operation α) → Multiset α → Multiset α → Prop where
  | done (c : Multiset α) : Does [] c c
  | insert (x : α) {c d : Multiset α} {rest : List (Operation α)} : Does rest (x ::ₘ c) d → Does (.insert x :: rest) c d
  | erased {pred : α → Bool} {x : α} (h : Nat) {c d : Multiset α} {rest : List (Operation α)} :
    pred x = true → Does rest c d → Does (.erase pred h :: rest) (x ::ₘ c) d
  | absent {pred : α → Bool} (h : Nat) {c d : Multiset α} {rest : List (Operation α)} :
    (∀ x ∈ c, pred x = false) → Does rest c d → Does (.erase pred h :: rest) c d
  | clear (c : Multiset α) {d : Multiset α} {rest : List (Operation α)} : Does rest 0 d → Does (.clear :: rest) c d

theorem Valid.run_spec (valid : Valid hash s) (operations : List (Operation α))
    (sound : ∀ o ∈ operations, o.Sound hash) :
    ∃ t, run (perform hash) operations s = some t ∧ Valid hash t ∧ Does operations s.contents t.contents := by
  induction operations generalizing s with
  | nil => exact ⟨s,rfl,valid,.done _⟩
  | cons operation rest ih =>
    have later : ∀ o ∈ rest, o.Sound hash := fun o member => sound o (List.mem_cons_of_mem _ member)
    rw [run_cons]
    cases operation with
    | insert x =>
      obtain ⟨next,inserted,kept,contents⟩ := valid.insert_spec x
      obtain ⟨t,onward,final,does⟩ := ih kept later
      exact ⟨t,by rw [perform,inserted]; exact onward,final,.insert x (contents ▸ does)⟩
    | erase pred h =>
      rcases valid.find_spec pred h (sound _ List.mem_cons_self) with ⟨found,absent⟩ | ⟨i,inside,found,x,here,fits⟩
      · obtain ⟨t,onward,final,does⟩ := ih valid later
        exact ⟨t,by simp [perform,found,onward],final,.absent h absent does⟩
      · obtain ⟨next,it,erased,kept,contents⟩ := valid.erase_spec inside here
        obtain ⟨t,onward,final,does⟩ := ih kept later
        exact ⟨t,by simp [perform,found,Nat.ne_of_lt inside,erased,onward],final,contents ▸ .erased h fits does⟩
    | clear =>
      obtain ⟨t,onward,final,does⟩ := ih valid_clear later
      exact ⟨t,onward,final,.clear _ (contents_clear (α := α) ▸ does)⟩

/-- Of every run of operations on a set, with every hash function: they all end; the set holds what they have put in
and not taken out; its size, a loop over it and every search are right; and `Verify` finds nothing wrong. -/
theorem hashSet_refines (hash : α → Nat) (operations : List (Operation α)) (sound : ∀ o ∈ operations, o.Sound hash) :
    ∃ s, run (perform hash) operations clear = some s ∧ Does operations 0 s.contents ∧ s.numElements = s.contents.card ∧
      (s.visit s.begin : Multiset α) = s.contents ∧ s.verify hash = some 0 ∧
      ∀ pred h, (∀ x, pred x = true → hash x = h) →
        (s.findIndex pred h = some s.numBuckets ∧ ∀ x ∈ s.contents, pred x = false) ∨
        ∃ i < s.numBuckets, s.findIndex pred h = some i ∧ ∃ x, s.data i = some x ∧ pred x = true := by
  obtain ⟨s,reached,valid,does⟩ := valid_clear.run_spec operations sound
  exact ⟨s,reached,contents_clear (α := α) ▸ does,valid.counted,s.visit_begin,valid.verify_eq,valid.find_spec⟩

/-- Two elements with the same hash, of which the first goes. -/
theorem hashSet_refines_sample : ∃ s, run (perform fun _ => 7) [.insert 1,.insert 2,.erase (· == 1) 7] clear = some s ∧
    Does [.insert 1,.insert 2,.erase (· == 1) 7] 0 s.contents := by
  obtain ⟨s,reached,does,-⟩ := hashSet_refines (fun _ => 7) [.insert 1,.insert 2,.erase (· == 1) 7] (fun o member => by
    simp only [List.mem_cons,List.not_mem_nil,or_false] at member
    rcases member with rfl | rfl | rfl
    · trivial
    · trivial
    · exact fun _ _ => rfl)
  exact ⟨s,reached,does⟩

end HashSet

end Aatt
