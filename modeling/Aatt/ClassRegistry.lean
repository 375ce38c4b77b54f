import Aatt.ClassTable

/-! The class table over whole runs. Whatever calls are made, in whatever order, it is a map from descriptors and class
loaders to classes; and while the collector logs new roots, no class escapes it. -/
namespace Aatt.ClassTable

open Aatt.Lib

/-- What the table is for: at most one class for a descriptor and a class loader. -/
structure Registry where
  find : List Char → Option Nat → Option Klass
  imageLookupRequired : Bool

namespace Registry

def set (r : Registry) (descriptor : List Char) (classLoader : Option Nat) (value : Option Klass) : Registry :=
  { r with find := fun d l => if d = descriptor ∧ l = classLoader then value else r.find d l }

theorem find_set_self (r : Registry) (d : List Char) (l : Option Nat) (value : Option Klass) :
    (r.set d l value).find d l = value := if_pos ⟨rfl,rfl⟩

theorem find_set_other {d d' : List Char} {l l' : Option Nat} (r : Registry) (value : Option Klass)
    (other : ¬(d = d' ∧ l = l')) : (r.set d' l' value).find d l = r.find d l := if_neg other

theorem set_eq_self {d : List Char} {l : Option Nat} {value : Option Klass} (r : Registry) (same : r.find d l = value) :
    r.set d l value = r := by
  unfold set
  congr
  funext d' l'
  split
  · next own => rw [own.1,own.2,same]
  · rfl

def add (r : Registry) (klass : Klass) : Registry :=
  if r.find klass.descriptor klass.classLoader = none then r.set klass.descriptor klass.classLoader (some klass) else r

def addImage (r : Registry) (image : List ImageClass) : Registry :=
  if r.imageLookupRequired then { image.foldl (fun r i => r.add i.klass) r with imageLookupRequired := false } else r

def step (r : Registry) : Action → Registry
  | .insertClass klass => r.add klass
  | .updateClass klass _ => r.set klass.descriptor klass.classLoader (some klass)
  | .removeClass descriptor classLoader => r.set descriptor classLoader none
  | .moveImageClasses image => r.addImage image
  | .preZygoteFork => r
  | .lookupClasses image _ => r.addImage image
  | .visitClassRoots _ => r

end Registry

variable {hash : List Char → Nat} {m : Tables} {r : Registry} {classes : Multiset Klass} {klass : Klass} {d : List Char}
  {l : Option Nat}

theorem equals_iff : equals d l klass = true ↔ klass.descriptor = d ∧ klass.classLoader = l := by
  unfold equals
  split <;> simp_all

theorem equals_self (klass : Klass) : equals klass.descriptor klass.classLoader klass = true := equals_iff.mpr ⟨rfl,rfl⟩

def withKey (classes : Multiset Klass) (d : List Char) (l : Option Nat) : Multiset Klass :=
  classes.filter fun klass => equals d l klass = true

theorem mem_withKey : klass ∈ withKey classes d l ↔ klass ∈ classes ∧ equals d l klass = true := Multiset.mem_filter

theorem withKey_cons (fits : equals d l klass = true) : withKey (klass ::ₘ classes) d l =
    klass ::ₘ withKey classes d l :=
  Multiset.filter_cons_of_pos (p := fun klass => equals d l klass = true) classes fits

theorem withKey_cons_other (other : ¬(d = klass.descriptor ∧ l = klass.classLoader)) :
    withKey (klass ::ₘ classes) d l = withKey classes d l :=
  Multiset.filter_cons_of_neg (p := fun klass => equals d l klass = true) classes
    fun fits => other ((equals_iff.mp fits).imp Eq.symm Eq.symm)

def Same (classes : Multiset Klass) (r : Registry) : Prop := ∀ d l, withKey classes d l =
    ((r.find d l).toList : Multiset Klass)

theorem Same.find (same : Same classes r) (member : klass ∈ classes) (fits : equals d l klass = true) :
    r.find d l = some klass := by
  have filtered := mem_withKey.mpr ⟨member,fits⟩
  rw [same] at filtered
  exact Option.mem_toList.mp (Multiset.mem_coe.mp filtered)

theorem Same.find_none (same : Same classes r) (absent : ∀ klass ∈ classes, equals d l klass = false) :
    r.find d l = none := by
  cases found : r.find d l with
  | none => rfl
  | some klass =>
    have filtered : klass ∈ withKey classes d l := by
      rw [same,found]
      exact Multiset.mem_coe.mpr (List.mem_singleton.mpr rfl)
    obtain ⟨member,fits⟩ := mem_withKey.mp filtered
    rw [absent klass member] at fits
    cases fits

theorem Same.cons (same : Same classes r) (absent : r.find klass.descriptor klass.classLoader = none) :
    Same (klass ::ₘ classes) (r.set klass.descriptor klass.classLoader (some klass)) := by
  intro d l
  by_cases own : d = klass.descriptor ∧ l = klass.classLoader
  · obtain ⟨rfl,rfl⟩ := own
    rw [withKey_cons (equals_self klass),same,absent,Registry.find_set_self]
    rfl
  · rw [withKey_cons_other own,same,Registry.find_set_other _ _ own]

theorem Same.remove (same : Same (klass ::ₘ classes) r) :
    Same classes (r.set klass.descriptor klass.classLoader none) := by
  intro d l
  have before := same d l
  by_cases own : d = klass.descriptor ∧ l = klass.classLoader
  · obtain ⟨rfl,rfl⟩ := own
    rw [same.find (Multiset.mem_cons_self klass classes) (equals_self klass),withKey_cons (equals_self klass)] at before
    rw [Registry.find_set_self]
    exact (Multiset.cons_inj_right klass).mp before
  · rw [withKey_cons_other own] at before
    rw [before,Registry.find_set_other _ _ own]

theorem Registry.set_set (r : Registry) (d : List Char) (l : Option Nat) (a b : Option Klass) :
    (r.set d l a).set d l b = r.set d l b := by
  unfold set
  congr
  funext d' l'
  by_cases own : d' = d ∧ l' = l
  · rw [if_pos own,if_pos own]
  · rw [if_neg own,if_neg own]
    exact if_neg own

theorem Same.replace {new : Klass} (same : Same (klass ::ₘ classes) r)
    (fits : equals new.descriptor new.classLoader klass = true) :
    Same (new ::ₘ classes) (r.set new.descriptor new.classLoader (some new)) := by
  obtain ⟨descriptor,classLoader⟩ := equals_iff.mp fits
  have removed := same.remove
  rw [descriptor,classLoader] at removed
  have added := removed.cons (Registry.find_set_self ..)
  rwa [Registry.set_set] at added

def Tables.all (m : Tables) : Multiset Klass := m.classTable.contents + m.preZygoteClassTable.contents

/-- The tables are sets in good order, and hold what the registry says. -/
structure Agrees (hash : List Char → Nat) (m : Tables) (r : Registry) : Prop where
  classTable : m.classTable.Valid (hashOf hash)
  preZygote : m.preZygoteClassTable.Valid (hashOf hash)
  fresh : m.hasZygoteSpace = false → m.preZygoteClassTable.contents = 0
  required : m.dexCacheImageClassLookupRequired = r.imageLookupRequired
  same : Same m.all r

theorem agrees_start (required : Bool) : Agrees hash (.start required) ⟨fun _ _ => none,required⟩ where
  classTable := HashSet.valid_clear
  preZygote := HashSet.valid_clear
  fresh := fun _ => HashSet.contents_clear
  required := rfl
  same := fun d l => by
    rw [Tables.all,Tables.start,HashSet.contents_clear]
    rfl

theorem agrees_hash (hash : List Char → Nat) (d : List Char) (l : Option Nat) (klass : Klass)
    (fits : equals d l klass = true) :
    hashOf hash klass = hash d := congrArg hash (equals_iff.mp fits).1

theorem find_table {table : HashSet Klass} (valid : table.Valid (hashOf hash)) (d : List Char) (l : Option Nat) :
    ∃ i, findWithHash hash table d l = some i ∧
      (i = table.numBuckets ∧ read table i = none ∧ (∀ klass ∈ table.contents, equals d l klass = false) ∨
        i < table.numBuckets ∧ ∃ klass, table.data i = some klass ∧ read table i = some klass ∧ klass ∈ table.contents ∧
          equals d l klass = true) := by
  rcases valid.find_spec _ _ (agrees_hash hash d l) with ⟨found,absent⟩ | ⟨i,inside,found,klass,here,fits⟩
  · exact ⟨_,found,.inl ⟨rfl,if_pos rfl,absent⟩⟩
  · exact ⟨i,found,.inr ⟨inside,klass,here,(if_neg (Nat.ne_of_lt inside)).trans here,
      Probing.mem_contents.mpr ⟨i,inside,here⟩,fits⟩⟩

theorem Agrees.lookup (agrees : Agrees hash m r) (d : List Char) (l : Option Nat) :
    lookupClassFromTableLocked hash m d l = some (r.find d l) := by
  rw [lookupClassFromTableLocked]
  obtain ⟨i,found,⟨rfl,ended,absent⟩ | ⟨inside,klass,here,reads,member,fits⟩⟩ := find_table agrees.preZygote d l
  · obtain ⟨j,found',⟨rfl,ended',absent'⟩ | ⟨inside,klass,here,reads,member,fits⟩⟩ := find_table agrees.classTable d l
    · have absent : r.find d l = none := by
        refine agrees.same.find_none fun klass member => ?_
        exact (Multiset.mem_add.mp member).elim (absent' klass) (absent klass)
      rw [absent]
      simp [found,ended,found',ended']
    · rw [agrees.same.find (Multiset.mem_add.mpr (.inl member)) fits]
      simp [found,ended,found',reads]
  · rw [agrees.same.find (Multiset.mem_add.mpr (.inr member)) fits]
    simp [found,reads]

/-- A class that is new is in the log, if there is one. -/
structure Logged (m t : Tables) : Prop where
  logging : t.logNewClassTableRoots = m.logNewClassTableRoots
  visited : t.visited = m.visited
  kept : ∀ klass ∈ m.newClassRoots, klass ∈ t.newClassRoots
  logged : m.logNewClassTableRoots = true → ∀ klass ∈ t.all, klass ∈ m.all ∨ klass ∈ t.newClassRoots

theorem Logged.trans {t u : Tables} (first : Logged m t) (second : Logged t u) : Logged m u where
  logging := second.logging.trans first.logging
  visited := second.visited.trans first.visited
  kept := fun klass old => second.kept klass (first.kept klass old)
  logged := fun logs klass member => by
    rcases second.logged (first.logging.trans logs) klass member with before | now
    · exact (first.logged logs klass before).imp_right (second.kept klass)
    · exact .inr now

theorem Logged.of_subset {t : Tables} (logging : t.logNewClassTableRoots = m.logNewClassTableRoots)
    (visited : t.visited = m.visited) (roots : t.newClassRoots = m.newClassRoots)
    (fewer : ∀ klass ∈ t.all, klass ∈ m.all) :
    Logged m t where
  logging := logging
  visited := visited
  kept := fun _ old => roots ▸ old
  logged := fun _ klass member => .inl (fewer klass member)

/-- A class table with one more class, which `InsertClass` and `UpdateClass` then log. -/
theorem logRoot_spec (klass : Klass) {table : HashSet Klass} (agrees : Agrees hash { m with classTable := table } r)
    (more : ∀ other ∈ table.contents, other = klass ∨ other ∈ m.classTable.contents) :
    Agrees hash ({ m with classTable := table }.logRoot klass) r ∧
      Logged m ({ m with classTable := table }.logRoot klass) := by
  unfold Tables.logRoot
  split
  · refine ⟨⟨agrees.classTable,agrees.preZygote,agrees.fresh,agrees.required,agrees.same⟩,rfl,rfl,fun other old => ?_,
      fun _ other member => ?_⟩
    · exact List.mem_append_left _ old
    · rcases Multiset.mem_add.mp member with inTable | inZygote
      · rcases more other inTable with rfl | before
        · exact .inr (List.mem_append_right _ (List.mem_singleton.mpr rfl))
        · exact .inl (Multiset.mem_add.mpr (.inl before))
      · exact .inl (Multiset.mem_add.mpr (.inr inZygote))
  · next quiet => exact ⟨agrees,rfl,rfl,fun _ old => old,fun logs => absurd logs quiet⟩

theorem Agrees.insertNew (agrees : Agrees hash m r) (klass : Klass)
    (absent : r.find klass.descriptor klass.classLoader = none) :
    ∃ t, insertNew hash m klass = some t ∧ Agrees hash t (r.set klass.descriptor klass.classLoader (some klass)) ∧
      Logged m t := by
  obtain ⟨table,inserted,valid,contents⟩ := agrees.classTable.insert_spec klass
  have all : Tables.all { m with classTable := table } = klass ::ₘ m.all := by
    rw [Tables.all,contents,Multiset.cons_add]
    rfl
  have next : Agrees hash { m with classTable := table } (r.set klass.descriptor klass.classLoader (some klass)) :=
    ⟨valid,agrees.preZygote,agrees.fresh,agrees.required,all ▸ agrees.same.cons absent⟩
  refine ⟨_,?_,logRoot_spec klass next fun other member => Multiset.mem_cons.mp (contents ▸ member)⟩
  rw [ClassTable.insertNew,inserted]
  rfl

theorem Agrees.insertClass (agrees : Agrees hash m r) (klass : Klass) :
    ∃ t, insertClass hash m klass = some (t,r.find klass.descriptor klass.classLoader) ∧ Agrees hash t (r.add klass) ∧
      Logged m t := by
  rw [ClassTable.insertClass,agrees.lookup,Registry.add]
  cases found : r.find klass.descriptor klass.classLoader with
  | some existing =>
    exact ⟨m,rfl,by rw [if_neg (Option.some_ne_none _)]; exact agrees,.of_subset rfl rfl rfl fun _ => id⟩
  | none =>
    obtain ⟨t,inserted,next,logged⟩ := agrees.insertNew klass found
    refine ⟨t,?_,by rw [if_pos rfl]; exact next,logged⟩
    simp [inserted]

theorem Agrees.updateClass (agrees : Agrees hash m r) (klass : Klass) (suitable : Bool) :
    ∃ t, updateClass hash m klass suitable = some t ∧ Logged m t ∧
      (t.aborted = true ∨ Agrees hash t (r.set klass.descriptor klass.classLoader (some klass))) := by
  rw [ClassTable.updateClass]
  obtain ⟨i,found,⟨rfl,ended,-⟩ | ⟨inside,existing,here,reads,member,fits⟩⟩ :=
    find_table agrees.classTable klass.descriptor klass.classLoader
  · exact ⟨{ m with aborted := true },by simp [found,ended],.of_subset rfl rfl rfl fun _ => id,.inl rfl⟩
  · by_cases refused : existing = klass ∨ (!suitable) = true
    · refine ⟨{ m with aborted := true },?_,.of_subset rfl rfl rfl fun _ => id,.inl rfl⟩
      simp only [found,reads,Option.bind_eq_bind,Option.bind_some,if_pos refused]
    · obtain ⟨valid,rest,before,after⟩ := agrees.classTable.replace_spec (y := klass) inside here
        (congrArg hash (equals_iff.mp fits).1).symm
      have next : Agrees hash { m with classTable :=
        { m.classTable with data := Function.update m.classTable.data i (some klass) } }
          (r.set klass.descriptor klass.classLoader (some klass)) := by
        refine ⟨valid,agrees.preZygote,agrees.fresh,agrees.required,?_⟩
        have same := agrees.same
        rw [Tables.all,before,Multiset.cons_add] at same
        rw [Tables.all,after,Multiset.cons_add]
        exact same.replace fits
      obtain ⟨next,logged⟩ := logRoot_spec klass next fun other inTable => by
        rw [after] at inTable
        rw [before]
        exact (Multiset.mem_cons.mp inTable).imp_right (Multiset.mem_cons_of_mem)
      exact ⟨_,by simp only [found,reads,Option.bind_eq_bind,Option.bind_some,if_neg refused],logged,.inr next⟩

/-- `Erase` in one table. -/
theorem eraseFound_spec {table : HashSet Klass} (valid : table.Valid (hashOf hash)) (d : List Char) (l : Option Nat) :
    (eraseFound hash table d l = some (table,false) ∧ ∀ klass ∈ table.contents, equals d l klass = false) ∨
    ∃ t klass, eraseFound hash table d l = some (t,true) ∧ t.Valid (hashOf hash) ∧
      table.contents = klass ::ₘ t.contents ∧
      equals d l klass = true := by
  rw [eraseFound]
  obtain ⟨i,found,⟨rfl,-,absent⟩ | ⟨inside,klass,here,-,-,fits⟩⟩ := find_table valid d l
  · exact .inl ⟨by simp [found],absent⟩
  · obtain ⟨t,it,erased,valid',contents⟩ := valid.erase_spec inside here
    exact .inr ⟨t,klass,by simp [found,Nat.ne_of_lt inside,erased],valid',contents,fits⟩

theorem Agrees.removeClass (agrees : Agrees hash m r) (d : List Char) (l : Option Nat) :
    ∃ t, removeClass hash m d l = some t ∧ Agrees hash t (r.set d l none) ∧ Logged m t := by
  rw [ClassTable.removeClass]
  rcases eraseFound_spec agrees.classTable d l with ⟨kept,absent⟩ | ⟨table,klass,erased,valid,contents,fits⟩
  · rcases eraseFound_spec agrees.preZygote d l with ⟨kept',absent'⟩ | ⟨table,klass,erased,valid,contents,fits⟩
    · refine ⟨m,by simp [kept,kept'],?_,.of_subset rfl rfl rfl fun _ => id⟩
      have absent : r.find d l = none :=
        agrees.same.find_none fun klass member => (Multiset.mem_add.mp member).elim (absent klass) (absent' klass)
      rwa [r.set_eq_self absent]
    · refine ⟨{ m with preZygoteClassTable := table },by simp [kept,erased],⟨agrees.classTable,valid,fun fresh => ?_,
        agrees.required,?_⟩,.of_subset rfl rfl rfl fun other member => ?_⟩
      · have empty := agrees.fresh fresh
        rw [contents] at empty
        exact absurd empty (Multiset.cons_ne_zero)
      · have same := agrees.same
        rw [Tables.all,contents,Multiset.add_cons] at same
        obtain ⟨rfl,rfl⟩ := equals_iff.mp fits
        exact same.remove
      · rw [Tables.all,contents,Multiset.add_cons]
        exact Multiset.mem_cons_of_mem member
  · refine ⟨{ m with classTable := table },by simp [erased],⟨valid,agrees.preZygote,agrees.fresh,agrees.required,?_⟩,
      .of_subset rfl rfl rfl fun other member => ?_⟩
    · have same := agrees.same
      rw [Tables.all,contents,Multiset.cons_add] at same
      obtain ⟨rfl,rfl⟩ := equals_iff.mp fits
      exact same.remove
    · rw [Tables.all,contents,Multiset.cons_add]
      exact Multiset.mem_cons_of_mem member

theorem Agrees.moveImageClass (agrees : Agrees hash m r) (i : ImageClass) :
    ∃ t, moveImageClass hash m i = some t ∧ Agrees hash t (r.add i.klass) ∧ Logged m t := by
  rw [ClassTable.moveImageClass,agrees.lookup,Registry.add]
  cases found : r.find i.descriptor none with
  | some existing =>
    have present : ¬r.find i.klass.descriptor i.klass.classLoader = none := by
      rw [ImageClass.klass,found]
      exact Option.some_ne_none _
    rw [if_neg present]
    by_cases same : existing = i.klass
    · exact ⟨m,by simp [same],agrees,.of_subset rfl rfl rfl fun _ => id⟩
    · exact ⟨{ m with aborted := true },by simp [same],⟨agrees.classTable,agrees.preZygote,agrees.fresh,agrees.required,
        agrees.same⟩,.of_subset rfl rfl rfl fun _ => id⟩
  | none =>
    obtain ⟨t,inserted,next,logged⟩ := agrees.insertNew i.klass found
    exact ⟨t,inserted,by rw [ImageClass.klass,if_pos found]; exact next,logged⟩

theorem Agrees.moveImage (agrees : Agrees hash m r) (image : List ImageClass) :
    ∃ t, moveImageClassesToClassTable hash m image = some t ∧ Agrees hash t (r.addImage image) ∧ Logged m t := by
  have all (image : List ImageClass) : ∀ {m : Tables} {r : Registry}, Agrees hash m r →
      ∃ t, image.foldlM (ClassTable.moveImageClass hash) m = some t ∧
        Agrees hash t (image.foldl (fun r i => r.add i.klass) r) ∧ Logged m t := by
    induction image with
    | nil => exact fun agrees => ⟨_,rfl,agrees,.of_subset rfl rfl rfl fun _ => id⟩
    | cons i rest ih =>
      intro m r agrees
      obtain ⟨t,moved,next,logged⟩ := agrees.moveImageClass i
      obtain ⟨u,run,final,logged'⟩ := ih next
      exact ⟨u,by rw [List.foldlM_cons,moved]; exact run,final,logged.trans logged'⟩
  rw [moveImageClassesToClassTable,Registry.addImage,← agrees.required]
  cases m.dexCacheImageClassLookupRequired with
  | false => exact ⟨m,rfl,agrees,.of_subset rfl rfl rfl fun _ => id⟩
  | true =>
    obtain ⟨t,run,next,logged⟩ := all image agrees
    exact ⟨{ t with dexCacheImageClassLookupRequired := false },by simp [run],
      ⟨next.classTable,next.preZygote,next.fresh,rfl,next.same⟩,⟨logged.logging,logged.visited,logged.kept,
        logged.logged⟩⟩

theorem takeAll_spec (d : List Char) {fuel : Nat} {table : HashSet Klass} (valid : table.Valid (hashOf hash))
    (enough : table.numElements < fuel) :
    ∃ result t, takeAll hash d fuel table = some (result,t) ∧ t.Valid (hashOf hash) ∧
      table.contents = (result : Multiset Klass) + t.contents ∧ (∀ klass ∈ result, klass.descriptor = d) ∧
      ∀ klass ∈ t.contents, ¬klass.descriptor = d := by
  induction fuel generalizing table with
  | zero => exact absurd enough (Nat.not_lt_zero _)
  | succ fuel ih =>
    rw [takeAll]
    rcases valid.find_spec (fun klass => klass.descriptor == d) (hash d)
      (fun klass fits => congrArg hash (beq_iff_eq.mp fits)) with ⟨found,absent⟩ | ⟨i,inside,found,klass,here,fits⟩
    · refine ⟨[],table,by simp [found,read],valid,(Multiset.zero_add _).symm,nofun,fun klass member => ?_⟩
      exact beq_eq_false_iff_ne.mp (absent klass member)
    · obtain ⟨t,it,erased,valid',contents⟩ := valid.erase_spec inside here
      have fewer : t.numElements < fuel := by
        have before := valid.counted
        rw [contents,Multiset.card_cons,← valid'.counted] at before
        omega
      obtain ⟨result,final,taken,valid'',split,taking,left⟩ := ih valid' fewer
      refine ⟨klass :: result,final,?_,valid'',?_,fun other member => ?_,left⟩
      · simp [found,read,Nat.ne_of_lt inside,here,erased,taken]
      · rw [contents,split,← Multiset.cons_coe,Multiset.cons_add]
      · rcases List.mem_cons.mp member with rfl | member
        · exact beq_iff_eq.mp fits
        · exact taking other member

theorem insertAll_spec (added : List Klass) {table : HashSet Klass} (valid : table.Valid (hashOf hash)) :
    ∃ t, added.foldlM (HashSet.insert (hashOf hash)) table = some t ∧ t.Valid (hashOf hash) ∧
      t.contents = (added : Multiset Klass) + table.contents := by
  induction added generalizing table with
  | nil => exact ⟨table,rfl,valid,(Multiset.zero_add _).symm⟩
  | cons klass rest ih =>
    obtain ⟨next,inserted,valid',contents⟩ := valid.insert_spec klass
    obtain ⟨t,run,valid'',all⟩ := ih valid'
    refine ⟨t,by rw [List.foldlM_cons,inserted]; exact run,valid'',?_⟩
    rw [all,contents,Multiset.add_cons,← Multiset.cons_coe,Multiset.cons_add]

theorem lookupClassesIn_spec (d : List Char) {table : HashSet Klass} (valid : table.Valid (hashOf hash)) :
    ∃ result t, lookupClassesIn hash d table = some (result,t) ∧ t.Valid (hashOf hash) ∧ t.contents = table.contents ∧
      (result : Multiset Klass) = table.contents.filter fun klass => klass.descriptor = d := by
  obtain ⟨result,left,taken,valid',split,taking,rest⟩ := takeAll_spec d valid (Nat.lt_succ_self _)
  obtain ⟨t,inserted,valid'',contents⟩ := insertAll_spec result valid'
  refine ⟨result,t,?_,valid'',contents.trans split.symm,?_⟩
  · simp [lookupClassesIn,taken,inserted]
  · rw [split,Multiset.filter_add,Multiset.filter_eq_self.mpr fun klass member => taking klass
      (Multiset.mem_coe.mp member),
      Multiset.filter_eq_nil.mpr rest,Multiset.add_zero]

theorem Agrees.lookupClasses (agrees : Agrees hash m r) (image : List ImageClass) (d : List Char) :
    ∃ t result, lookupClasses hash m image d = some (t,result) ∧ Agrees hash t (r.addImage image) ∧ Logged m t ∧
      (result : Multiset Klass) = t.all.filter fun klass => klass.descriptor = d := by
  obtain ⟨moved,run,next,logged⟩ := agrees.moveImage image
  obtain ⟨result,classTable,found,valid,same,taken⟩ := lookupClassesIn_spec d next.classTable
  obtain ⟨result',preZygote,found',valid',same',taken'⟩ := lookupClassesIn_spec d next.preZygote
  have all : Tables.all { moved with classTable := classTable, preZygoteClassTable := preZygote } = moved.all := by
    rw [Tables.all,Tables.all,same,same']
  refine ⟨{ moved with classTable := classTable, preZygoteClassTable := preZygote },result ++ result',?_,
    ⟨valid,valid',fun fresh => same'.trans (next.fresh fresh),next.required,all ▸ next.same⟩,
    logged.trans (.of_subset rfl rfl rfl fun _ => (all ▸ ·)),?_⟩
  · simp [ClassTable.lookupClasses,run,found,found']
  · rw [all,Tables.all,Multiset.filter_add,← taken,← taken',Multiset.coe_add]

theorem Agrees.preZygoteFork (agrees : Agrees hash m r) :
    Agrees hash (moveClassTableToPreZygote m) r ∧ Logged m (moveClassTableToPreZygote m) := by
  unfold moveClassTableToPreZygote
  split
  · exact ⟨agrees,.of_subset rfl rfl rfl fun _ => id⟩
  · next fresh =>
    have all : Tables.all { m with
        preZygoteClassTable := m.classTable, classTable := .clear, hasZygoteSpace := true } = m.all := by
      rw [Tables.all,Tables.all,HashSet.contents_clear,agrees.fresh (Bool.eq_false_iff.mpr fresh),Multiset.zero_add,
        Multiset.add_zero]
    refine ⟨⟨HashSet.valid_clear,agrees.classTable,fun moved => ?_,agrees.required,all ▸ agrees.same⟩,
      .of_subset rfl rfl rfl fun _ => (all ▸ ·)⟩
    cases moved

theorem Agrees.step (agrees : Agrees hash m r) (action : Action) :
    ∃ t, step hash action m = some t ∧ (t.aborted = true ∨ Agrees hash t (r.step action)) ∧
      (Logged m t ∨ ∃ flags, action = .visitClassRoots flags ∧ t = visitClassRoots m flags) := by
  unfold ClassTable.step
  split
  · next aborted => exact ⟨m,rfl,.inl aborted,.inl (.of_subset rfl rfl rfl fun _ => id)⟩
  cases action with
  | insertClass klass =>
    obtain ⟨t,run,next,logged⟩ := agrees.insertClass klass
    exact ⟨t,congrArg (Option.map Prod.fst) run,.inr next,.inl logged⟩
  | updateClass klass suitable =>
    obtain ⟨t,run,logged,next⟩ := agrees.updateClass klass suitable
    exact ⟨t,run,next,.inl logged⟩
  | removeClass d l =>
    obtain ⟨t,run,next,logged⟩ := agrees.removeClass d l
    exact ⟨t,run,.inr next,.inl logged⟩
  | moveImageClasses image =>
    obtain ⟨t,run,next,logged⟩ := agrees.moveImage image
    exact ⟨t,run,.inr next,.inl logged⟩
  | preZygoteFork =>
    obtain ⟨next,logged⟩ := agrees.preZygoteFork
    exact ⟨_,rfl,.inr next,.inl logged⟩
  | lookupClasses image d =>
    obtain ⟨t,result,run,next,logged,-⟩ := agrees.lookupClasses image d
    exact ⟨t,congrArg (Option.map Prod.fst) run,.inr next,.inl logged⟩
  | visitClassRoots flags =>
    exact ⟨visitClassRoots m flags,rfl,.inr ⟨agrees.classTable,agrees.preZygote,agrees.fresh,agrees.required,
      agrees.same⟩,
      .inr ⟨flags,rfl,rfl⟩⟩

theorem step_aborted (action : Action) (aborted : m.aborted = true) : step hash action m = some m := if_pos aborted

theorem run_agrees (hash : List Char → Nat) (actions : List Action) (holds : m.aborted = true ∨ Agrees hash m r) :
    ∃ t, run (step hash) actions m = some t ∧ (t.aborted = true ∨ Agrees hash t (actions.foldl Registry.step r)) := by
  induction actions generalizing m r with
  | nil => exact ⟨m,rfl,holds⟩
  | cons action rest ih =>
    rcases holds with aborted | agrees
    · obtain ⟨t,onward,kept⟩ := ih (r := r.step action) (.inl aborted)
      exact ⟨t,by rw [run_cons,step_aborted action aborted]; exact onward,kept⟩
    · obtain ⟨next,taken,kept,-⟩ := agrees.step action
      obtain ⟨t,onward,final⟩ := ih kept
      exact ⟨t,by rw [run_cons,taken]; exact onward,final⟩

/-- In every order of calls that insert, update, remove and move classes: none of them ever runs around a table
forever, and a lookup finds the class that the calls so far have left for its key. -/
theorem classTable_refines (hash : List Char → Nat) (required : Bool) (actions : List Action) :
    ∃ t, run (step hash) actions (.start required) = some t ∧ (t.aborted = false → ∀ d l,
      lookupClassFromTableLocked hash t d l = some ((actions.foldl Registry.step ⟨fun _ _ => none,
        required⟩).find d l)) := by
  obtain ⟨t,reached,holds⟩ := run_agrees hash actions (.inr (agrees_start required))
  refine ⟨t,reached,fun alive => ?_⟩
  rcases holds with aborted | agrees
  · rw [alive] at aborted
    cases aborted
  · exact agrees.lookup

theorem Same.nodup (same : Same classes r) : classes.Nodup := by
  refine Multiset.nodup_iff_count_le_one.mpr fun klass => ?_
  have counted : classes.count klass = (withKey classes klass.descriptor klass.classLoader).count klass :=
    (Multiset.count_filter_of_pos (p := fun other => equals klass.descriptor klass.classLoader other = true)
      (equals_self klass)).symm
  rw [counted,same]
  cases r.find klass.descriptor klass.classLoader with
  | none => exact Nat.zero_le 1
  | some other =>
    rw [Option.toList_some,Multiset.coe_singleton]
    exact (Multiset.nodup_iff_count_le_one.mp (Multiset.nodup_singleton other)) klass

theorem Same.mem_iff (same : Same classes r) :
    klass ∈ classes ↔ r.find klass.descriptor klass.classLoader = some klass := by
  constructor
  · exact fun member => same.find member (equals_self klass)
  · intro found
    have keyed : klass ∈ withKey classes klass.descriptor klass.classLoader := by
      rw [same,found]
      exact Multiset.mem_coe.mpr (List.mem_singleton.mpr rfl)
    exact (mem_withKey.mp keyed).1

/-- After every order of calls, `LookupClasses` finds the classes with a descriptor in all class loaders, each of them
once, and the tables then hold what they held before. -/
theorem lookupClasses_complete (hash : List Char → Nat) (required : Bool) (actions : List Action)
    (image : List ImageClass) (d : List Char) :
    ∃ t, run (step hash) actions (.start required) = some t ∧ (t.aborted = false →
      ∃ u result, lookupClasses hash t image d = some (u,result) ∧ result.Nodup ∧
        (∀ klass, klass ∈ result ↔
          klass.descriptor = d ∧ lookupClassFromTableLocked hash u d klass.classLoader = some (some klass)) ∧
        ∀ d' l, lookupClassFromTableLocked hash u d' l =
          some (((actions.foldl Registry.step ⟨fun _ _ => none,required⟩).addImage image).find d' l)) := by
  obtain ⟨t,reached,holds⟩ := run_agrees hash actions (.inr (agrees_start required))
  refine ⟨t,reached,fun alive => ?_⟩
  rcases holds with aborted | agrees
  · rw [alive] at aborted
    cases aborted
  obtain ⟨u,result,found,next,-,filtered⟩ := agrees.lookupClasses image d
  refine ⟨u,result,found,?_,fun klass => ?_,next.lookup⟩
  · exact Multiset.coe_nodup.mp (filtered ▸ Multiset.Nodup.filter _ next.same.nodup)
  · rw [← Multiset.mem_coe,filtered,Multiset.mem_filter,next.lookup,next.same.mem_iff,and_comm,Option.some_inj]
    exact and_congr_right fun key => by rw [key]

/-- While new roots are logged, the collector has seen every class or will see it in the log. -/
def Covered (m : Tables) : Prop :=
  m.logNewClassTableRoots = true → ∀ klass ∈ m.all, klass ∈ m.visited ∨ klass ∈ m.newClassRoots

theorem Logged.covered {t : Tables} (logged : Logged m t) (covered : Covered m) : Covered t := by
  intro logs klass member
  rw [logged.logging] at logs
  rcases logged.logged logs klass member with before | new
  · rw [logged.visited]
    exact (covered logs klass before).imp_right (logged.kept klass)
  · exact .inr new

/-- As the collector visits the roots: it starts to log only as it visits all of them, and clears the log only as it
visits all roots or those in the log. -/
def Proper : Action → Prop
  | .visitClassRoots flags =>
    (flags.startLoggingNewRoots = true → flags.allRoots = true) ∧
    (flags.clearRootLog = true → flags.allRoots = true ∨ flags.newRoots = true)
  | _ => True

theorem mem_seenRoots_all {flags : VisitRootFlags} (all : flags.allRoots = true) (member : klass ∈ m.all) :
    klass ∈ seenRoots m flags := by
  rw [seenRoots,if_pos all,List.mem_append,← Multiset.mem_coe,← Multiset.mem_coe,HashSet.visit_begin,
    HashSet.visit_begin]
  exact Multiset.mem_add.mp member

theorem mem_seenRoots {flags : VisitRootFlags} (visits : flags.allRoots = true ∨ flags.newRoots = true)
    (member : klass ∈ m.all) (log : klass ∈ m.newClassRoots) : klass ∈ seenRoots m flags := by
  by_cases all : flags.allRoots = true
  · exact mem_seenRoots_all all member
  · rw [seenRoots,if_neg all,if_pos (visits.resolve_left all)]
    exact log

theorem Covered.visit (covered : Covered m) {flags : VisitRootFlags} (proper : Proper (.visitClassRoots flags)) :
    Covered (visitClassRoots m flags) := by
  intro logs klass member
  have member : klass ∈ m.all := member
  simp only [visitClassRoots] at logs ⊢
  by_cases starts : flags.startLoggingNewRoots = true
  · rw [if_pos starts]
    exact .inl (mem_seenRoots_all (proper.1 starts) member)
  · rw [if_neg starts] at logs ⊢
    by_cases stops : flags.stopLoggingNewRoots = true
    · rw [if_pos stops] at logs
      cases logs
    · rw [if_neg stops] at logs
      rw [List.mem_append]
      rcases covered logs klass member with seen | log
      · exact .inl (.inl seen)
      · by_cases clears : flags.clearRootLog = true
        · exact .inl (.inr (mem_seenRoots (proper.2 clears) member log))
        · rw [if_neg clears]
          exact .inr log

theorem covered_step (action : Action) (m t : Tables) (holds : m.aborted = true ∨ (∃ r, Agrees hash m r) ∧ Covered m)
    (proper : Proper action) (taken : step hash action m = some t) : t.aborted = true ∨ (∃ r, Agrees hash t r) ∧
      Covered t := by
  rcases holds with aborted | ⟨⟨r,agrees⟩,covered⟩
  · cases taken.symm.trans (step_aborted action aborted)
    exact .inl aborted
  · obtain ⟨next,eq,aborted | agrees',does⟩ := agrees.step action
    · cases taken.symm.trans eq
      exact .inl aborted
    · cases taken.symm.trans eq
      refine .inr ⟨⟨_,agrees'⟩,?_⟩
      rcases does with logged | ⟨flags,rfl,rfl⟩
      · exact logged.covered covered
      · exact covered.visit proper

/-- In every order of calls, with the visits as the collector makes them: once it has started to log and visits the
log, it has seen every class that a lookup can find. -/
theorem classRoots_visited (hash : List Char → Nat) (required : Bool) (actions : List Action) {t : Tables}
    (proper : ∀ action ∈ actions, Proper action) (reached : run (step hash) actions (.start required) = some t)
    (alive : t.aborted = false) (logs : t.logNewClassTableRoots = true) (flags : VisitRootFlags)
    (visits : flags.newRoots = true) (goesOn : flags.startLoggingNewRoots = false) (d : List Char) (l : Option Nat)
    (klass : Klass) (found : lookupClassFromTableLocked hash t d l = some (some klass)) :
    klass ∈ (visitClassRoots t flags).visited := by
  have each : EachStep (step hash) (fun action _ => Proper action) actions (.start required) :=
    fun front action back _ _ split _ _ => proper action
      (by rw [split]; exact List.mem_append_right _ List.mem_cons_self)
  have initial : (Tables.start required).aborted = true ∨ (∃ r, Agrees hash (Tables.start required) r) ∧
      Covered (Tables.start required) := .inr ⟨⟨_,agrees_start required⟩,fun logs => by cases logs⟩
  rcases run_invariant (fun m => m.aborted = true ∨ (∃ r, Agrees hash m r) ∧
    Covered m) covered_step actions _ t each initial
    reached with aborted | ⟨⟨r,agrees⟩,covered⟩
  · rw [alive] at aborted
    cases aborted
  · rw [agrees.lookup,Option.some_inj] at found
    have keyed : klass ∈ withKey t.all d l := by
      rw [agrees.same,found]
      exact Multiset.mem_coe.mpr (List.mem_singleton.mpr rfl)
    have member := (mem_withKey.mp keyed).1
    have seen : (visitClassRoots t flags).visited = t.visited ++ seenRoots t flags :=
      if_neg (ne_true_of_eq_false goesOn)
    rw [seen,List.mem_append]
    exact (covered logs klass member).imp_right (mem_seenRoots (.inr visits) member)

/-- The collector starts to log, a class is inserted, and the collector visits the log. -/
theorem classRoots_visited_sample : ∃ t,
    run (step List.length) [.visitClassRoots ⟨true,false,true,false,false⟩,.insertClass ⟨64,['A'],none⟩]
    (.start false) = some t ∧
      lookupClassFromTableLocked List.length t ['A'] none = some (some ⟨64,['A'],none⟩) ∧
      ⟨64,['A'],none⟩ ∈ (visitClassRoots t ⟨false,true,false,true,true⟩).visited := by
  refine ⟨_,rfl,rfl,classRoots_visited List.length false
    [.visitClassRoots ⟨true,false,true,false,false⟩,.insertClass ⟨64,['A'],none⟩] (fun action member => ?_) rfl rfl rfl
    ⟨false,true,false,true,true⟩ rfl rfl ['A'] none ⟨64,['A'],none⟩ rfl⟩
  rcases List.mem_pair.mp member with rfl | rfl
  · exact ⟨fun _ => rfl,fun clears => by cases clears⟩
  · trivial

end Aatt.ClassTable
