import SolarisXorg.X11.CmapEquiv

/-!
# The answer of `areEquiv`

`buildList` is a walk over the lists of the string (`buildList_eq_walk`). The lists before the last
one leave their ids in the array (`walk_before`), and the search for `v2` goes over the cells of the
last one (`walk_last`, `searchList_eq`). So there is an answer iff the string is readable, and then
it is whether `v2` is found (`areEquiv_of_readable`, `areEquiv_of_not_readable`).
-/

namespace X11.CmapEquiv

open Lib

variable {malloc : Nat → Bool} {v1 v2 : VisualID} {string : List UInt8}

/-! ## The lists -/

/-- The ids are ids, and as many as announced, at the most. -/
structure IdList.Valid (l : IdList) : Prop where
  nonzero : 0 ∉ l.ids
  length : l.ids.length ≤ l.count.toNat
  count : -2 ^ 31 ≤ l.count ∧ l.count ≤ intMax

theorem takeIds_valid (n : Nat) (p : List UInt8) :
    0 ∉ (takeIds n p).1 ∧ (takeIds n p).1.length ≤ n := by
  induction n generalizing p with
  | zero => exact ⟨List.not_mem_nil, Nat.le_refl _⟩
  | succ n ih =>
    rw [takeIds]
    dsimp only
    by_cases hzero : (getNextEntry p).1 = 0
    case pos =>
      rw [if_pos hzero]
      exact ⟨List.not_mem_nil, Nat.zero_le _⟩
    rw [if_neg hzero]
    obtain ⟨hids, hlen⟩ := ih (getNextEntry p).2
    refine ⟨fun h => ?_, Nat.succ_le_succ hlen⟩
    rcases List.mem_cons.1 h with h | h
    · exact hzero h.symm
    · exact hids h

/-- The list that the string begins with. -/
def firstList (p : List UInt8) : IdList :=
  ⟨(Int32.ofNat (strtoul p).1).toInt,
    (takeIds (Int32.ofNat (strtoul p).1).toInt.toNat (strtoul p).2).1⟩

/-- The string behind the list that it begins with. -/
def nextList (p : List UInt8) : List UInt8 :=
  (takeIds (Int32.ofNat (strtoul p).1).toInt.toNat (strtoul p).2).2

theorem nextList_length {p : List UInt8} (hnum : Int32.ofNat (strtoul p).1 ≠ 0) :
    (nextList p).length < p.length :=
  takeIds_strtoul_length _ (ne_zero_of_ofNat hnum)

theorem intLists_eq (p : List UInt8) : intLists p =
    if Int32.ofNat (strtoul p).1 = 0 then [] else firstList p :: intLists (nextList p) := by
  have hzero : ((strtoul p).1 = 0 ∨ (Int32.ofNat (strtoul p).1).toInt = 0) ↔
      Int32.ofNat (strtoul p).1 = 0 := by
    rw [← Int32.toInt_inj, Int32.toInt_zero]
    refine ⟨fun h => h.elim (fun h => ?_) id, .inr⟩
    rw [h]
    rfl
  rw [intLists, lists]
  simp only [hzero]
  rfl

theorem intLists_valid : ∀ l ∈ intLists string, l.Valid := by
  intro l hl
  generalize hn : string.length = n
  induction n using Nat.strong_induction_on generalizing string with
  | _ n ih =>
    subst hn
    rw [intLists_eq] at hl
    by_cases hnum : Int32.ofNat (strtoul string).1 = 0
    case pos =>
      rw [if_pos hnum] at hl
      exact absurd hl List.not_mem_nil
    rw [if_neg hnum] at hl
    rcases List.mem_cons.1 hl with rfl | hl
    · obtain ⟨hids, hlen⟩ := takeIds_valid (Int32.ofNat (strtoul string).1).toInt.toNat
        (strtoul string).2
      refine ⟨hids, hlen, Int32.le_toInt _, ?_⟩
      exact Int.le_of_lt_add_one (Int32.toInt_lt _)
    · exact ih _ (nextList_length hnum) hl rfl

/-! ## A walk over the lists -/

/-- `buildList`, as it goes over the lists. -/
def walk (malloc : Nat → Bool) (v1 : VisualID) :
    List IdList → Pointer → Cells → Option (Pointer × Cells)
  | [], pList, list => some (pList, list)
  | l :: ls, _, list =>
    if l.Obtained malloc then
      if l.Large then
        (storeEach (unsetCells (l.count.toNat + 1)) 0 (l.ids.map some)).bind fun cells =>
          if v1 ∈ l.ids then
            (store cells l.count (some 0)).map fun cells => (.allocated cells, list)
          else walk malloc v1 ls .null list
      else
        (storeEach list 0 (l.ids.map some)).bind fun list =>
          if v1 ∈ l.ids then (store list l.count (some 0)).map fun list => (.original, list)
          else walk malloc v1 ls .null list
    else some (.null, list)

theorem large_iff (num : Int32) (ids : List VisualID) :
    initListSize < num + 1 ↔ (IdList.mk num.toInt ids).Large := by
  have hlow := num.le_toInt
  have hhigh := num.toInt_lt
  have hsize : initListSize.toInt = 100 := rfl
  have hone : (1 : Int32).toInt = 1 := rfl
  rw [IdList.Large, intMax, Int32.lt_iff_toInt_lt, Int32.toInt_add, hsize, hone]
  dsimp only
  by_cases hmax : num.toInt + 1 = 2 ^ 31
  case pos =>
    rw [hmax]
    exact iff_of_false (by decide) (by omega)
  rw [Int.bmod_eq_of_le (by omega) (by omega)]
  omega

theorem size_eq {num : Int32} {ids : List VisualID} (hlarge : (IdList.mk num.toInt ids).Large) :
    (num + 1).toInt.toNat = num.toInt.toNat + 1 := by
  obtain ⟨hlow, hhigh⟩ := hlarge
  have hsize : initListSize.toInt = 100 := rfl
  have hone : (1 : Int32).toInt = 1 := rfl
  rw [hsize] at hlow
  rw [intMax] at hhigh
  dsimp only at hlow hhigh
  rw [Int32.toInt_add, hone, Int.bmod_eq_of_le (by omega) (by omega)]
  omega

/-- How `buildList` goes on, where `next` is the loop. -/
def Iteration.run (next : List UInt8 → Cells → Option (Pointer × Cells)) :
    Iteration → Option (Pointer × Cells)
  | .leave pList list => some (pList, list)
  | .again p list => next p list

/-- An iteration leaves the loop with a list that has been found, and goes on without one. -/
theorem Iteration.bind_run {next : List UInt8 → Cells → Option (Pointer × Cells)} {found : Bool}
    {stored : Option Cells} (pointer : Cells → Pointer) (array : Cells → Cells) (p : List UInt8)
    (list : Cells) :
    (if found then stored.map fun cells => .leave (pointer cells) (array cells)
        else some (.again p list)).bind (Iteration.run next) =
      if found then stored.map fun cells => (pointer cells, array cells) else next p list := by
  cases found
  · rfl
  · cases stored <;> rfl

/-- The loop of `buildList`, with its body. -/
theorem buildList_eq (p : List UInt8) (pList : Pointer) (list : Cells) :
    buildList malloc v1 p pList list =
      if Int32.ofNat (strtoul p).1 = 0 then some (pList, list)
      else (buildListBody malloc v1 (Int32.ofNat (strtoul p).1) (strtoul p).2 list).bind
        (Iteration.run fun p list => buildList malloc v1 p .null list) := by
  rw [buildList]
  dsimp only
  by_cases hnum : Int32.ofNat (strtoul p).1 = 0
  case pos => rw [dif_pos hnum, if_pos hnum]
  rw [dif_neg hnum, if_neg hnum]
  split
  all_goals
    rename_i h
    rw [h]
    rfl

theorem buildList_eq_walk (pList : Pointer) (list : Cells) :
    buildList malloc v1 string pList list = walk malloc v1 (intLists string) pList list := by
  generalize hn : string.length = n
  induction n using Nat.strong_induction_on generalizing string pList list with
  | _ n ih =>
    subst hn
    rw [buildList_eq, intLists_eq]
    by_cases hnum : Int32.ofNat (strtoul string).1 = 0
    case pos =>
      rw [if_pos hnum, if_pos hnum]
      rfl
    have ih' := fun pList list => ih _ (nextList_length hnum) pList list rfl
    have hcontains : (takeIds (Int32.ofNat (strtoul string).1).toInt.toNat
        (strtoul string).2).1.contains v1 = decide (v1 ∈ (firstList string).ids) :=
      List.contains_eq_mem _ _
    rw [if_neg hnum, if_neg hnum, walk, buildListBody]
    simp only [readElements_eq, Bool.false_or, hcontains]
    by_cases hlarge : (firstList string).Large
    case pos =>
      have hlarge' := (large_iff _ _).2 hlarge
      rw [if_pos hlarge', if_pos hlarge, size_eq hlarge]
      by_cases hobtained : (firstList string).Obtained malloc
      case neg =>
        have hmalloc : ¬malloc (((Int32.ofNat (strtoul string).1).toInt.toNat + 1) *
            sizeofVisualID) = true := fun h => hobtained fun _ => h
        rw [if_neg hobtained, if_neg hmalloc]
        rfl
      have hmalloc : malloc (((Int32.ofNat (strtoul string).1).toInt.toNat + 1) *
          sizeofVisualID) = true := hobtained hlarge
      rw [if_pos hobtained, if_pos hmalloc, Option.bind_map, Option.bind_assoc]
      refine Option.bind_congr fun cells _ => ?_
      refine (Iteration.bind_run .allocated (fun _ => list) (nextList string) list).trans ?_
      rw [ih']
      simp only [decide_eq_true_eq]
      rfl
    have hlarge' := mt (large_iff _ _).1 hlarge
    have hobtained : (firstList string).Obtained malloc := fun h => absurd h hlarge
    rw [if_neg hlarge', if_neg hlarge, if_pos hobtained, Option.bind_map, Option.bind_assoc]
    refine Option.bind_congr fun cells _ => ?_
    refine (Iteration.bind_run (fun _ => .original) id (nextList string) cells).trans ?_
    rw [ih']
    simp only [decide_eq_true_eq]
    rfl

/-! ## The cells -/

theorem leftover_append (ls : List IdList) (l : IdList) (i : Nat) :
    leftover (ls ++ [l]) i = (if l.Large then none else l.ids[i]?).or (leftover ls i) := by
  rw [leftover, List.reverse_append, List.reverse_singleton, List.singleton_append,
    List.findSome?_cons]
  cases (if l.Large then none else l.ids[i]?) <;> rfl

theorem storeEach_range {n : Nat} {ids : List VisualID} (hlen : ids.length ≤ n)
    (f : Nat → Option VisualID) : storeEach ((List.range n).map f) 0 (ids.map some) =
      some ((List.range n).map fun i => ids[i]?.or (f i)) := by
  obtain ⟨cells, hstore, hcells⟩ := exists_storeEach (m := (List.range n).map f)
    (ids.map some) (Int.le_refl 0) (by simp only [List.length_map, List.length_range]; omega)
  rw [hstore, Option.some.injEq]
  refine List.ext_getElem? fun i => ?_
  rw [getElem?_storeEach hstore, List.length_map, List.getElem?_map, List.getElem?_map,
    List.getElem?_map]
  by_cases hi : i < n
  case neg =>
    rw [if_neg (by omega), List.getElem?_eq_none (by rw [List.length_range]; omega)]
    rfl
  rw [List.getElem?_range hi, Option.map_some, Option.map_some]
  by_cases hids : i < ids.length
  case pos =>
    rw [if_pos (by omega), Int.sub_zero, Int.toNat_natCast, List.getElem?_eq_getElem hids]
    rfl
  rw [if_neg (by omega), List.getElem?_eq_none (Nat.le_of_not_lt hids)]
  rfl

/-- A list that is kept in the array. -/
theorem storeEach_leftCells {l : IdList} (ls : List IdList) (hlarge : ¬l.Large)
    (hlen : l.ids.length ≤ initListSize.toInt) :
    storeEach (leftCells ls) 0 (l.ids.map some) = some (leftCells (ls ++ [l])) := by
  rw [leftCells, storeEach_range (by omega), leftCells]
  refine congrArg some (List.map_congr_left fun i _ => ?_)
  rw [leftover_append, if_neg hlarge]

/-- A list with memory of its own leaves nothing in the array. -/
theorem leftCells_large {l : IdList} (ls : List IdList) (hlarge : l.Large) :
    leftCells (ls ++ [l]) = leftCells ls := by
  refine List.map_congr_left fun i _ => ?_
  rw [leftover_append, if_pos hlarge, Option.none_or]

theorem unsetCells_eq (n : Nat) : unsetCells n = (List.range n).map fun _ => none := by
  rw [unsetCells, List.map_const', List.length_range]

/-- The ids that a list announces fit into the memory that it has. -/
theorem IdList.Valid.room {l : IdList} (hl : l.Valid) (hlarge : ¬l.Large) (hfits : l.Fits) :
    l.ids.length ≤ initListSize.toInt := by
  have hsize : initListSize.toInt = 100 := rfl
  have hlen := hl.length
  have hmax := hl.count
  rw [IdList.Large] at hlarge
  by_cases hcount : l.count = intMax
  case pos => exact hfits hcount
  omega

/-! ## The lists before the last one -/

/-- Behind a list that `buildList` does not end with. -/
theorem walk_cons {pre ls : List IdList} {l : IdList} {pList : Pointer} (hl : l.Valid)
    (hends : ¬l.Ends malloc v1) : walk malloc v1 (l :: ls) pList (leftCells pre) =
      if l.Fits then walk malloc v1 ls .null (leftCells (pre ++ [l])) else none := by
  rw [IdList.Ends, not_or, not_not] at hends
  obtain ⟨hfound, hobtained⟩ := hends
  rw [walk, if_pos hobtained]
  have hlen := hl.length
  by_cases hlarge : l.Large
  case pos =>
    have hfits : l.Fits := fun h => absurd hlarge.2 (by rw [h]; exact Int.lt_irrefl _)
    rw [if_pos hlarge, if_pos hfits, unsetCells_eq, storeEach_range (by omega), Option.bind_some,
      if_neg hfound, leftCells_large pre hlarge]
  rw [if_neg hlarge]
  by_cases hfits : l.Fits
  case pos =>
    rw [if_pos hfits, storeEach_leftCells pre hlarge (hl.room hlarge hfits), Option.bind_some,
      if_neg hfound]
  rw [if_neg hfits]
  have hnone : storeEach (leftCells pre) 0 (l.ids.map some) = none := by
    rw [IdList.Fits, Classical.not_imp] at hfits
    rw [← Option.not_isSome_iff_eq_none, storeEach_isSome_iff, leftCells, List.length_map,
      List.length_map, List.length_range, List.map_eq_nil_iff]
    rintro (hnil | ⟨-, hle⟩)
    · rw [hnil, List.length_nil] at hfits
      exact hfits.2 (by decide)
    · have hsize : initListSize.toInt = 100 := rfl
      omega
  rw [hnone]
  rfl

/-- Behind the lists before the last one. -/
theorem walk_before {pre ls ls' : List IdList} {pList : Pointer} (hls : ∀ l ∈ ls, l.Valid)
    (hends : ∀ l ∈ ls, ¬l.Ends malloc v1) :
    walk malloc v1 (ls ++ ls') pList (leftCells pre) =
      if ∀ l ∈ ls, l.Fits then
        walk malloc v1 ls' (if ls = [] then pList else .null) (leftCells (pre ++ ls))
      else none := by
  induction ls generalizing pre pList with
  | nil =>
    rw [if_pos fun l hl => absurd hl List.not_mem_nil, if_pos rfl, List.append_nil]
    rfl
  | cons l ls ih =>
    rw [List.cons_append, walk_cons (hls l (.head _)) (hends l (.head _)),
      ih (fun l hl => hls l (.tail _ hl)) fun l hl => hends l (.tail _ hl), ite_self,
      if_neg (List.cons_ne_nil _ _), List.append_assoc, List.singleton_append]
    simp only [List.forall_mem_cons]
    by_cases hfits : l.Fits
    case pos => simp only [hfits, true_and, if_true]
    simp only [hfits, false_and, if_false]

/-! ## The search -/

/-- Cells that are set from the beginning on, up to the end of the list. -/
theorem searchList_eq {cells : Cells} (tail : Cells) (v : VisualID) (hnonzero : some 0 ∉ cells)
    (hset : cells.Pairwise fun c d => d.isSome → c.isSome) :
    searchList (cells ++ some 0 :: tail) v =
      if some v ∈ cells then some true else if none ∈ cells then none else some false := by
  induction cells with
  | nil => rfl
  | cons c cells ih =>
    obtain ⟨hhead, htail⟩ := List.pairwise_cons.1 hset
    cases c with
    | none =>
      have hunset : some v ∉ none :: cells := by
        intro h
        rcases List.mem_cons.1 h with h | h
        · cases h
        · exact absurd (hhead _ h rfl) (by decide)
      rw [if_neg hunset, if_pos (.head _)]
      rfl
    | some x =>
      rw [List.mem_cons, not_or] at hnonzero
      have hx : x ≠ 0 := fun h => hnonzero.1 (by rw [h])
      rw [List.cons_append, searchList, if_neg hx, ih hnonzero.2 htail]
      by_cases hv : x = v
      case pos =>
        subst hv
        rw [if_pos rfl, if_pos (.head _)]
      have hne : some v ≠ some x := fun h => hv (Option.some.inj h).symm
      simp only [if_neg hv, List.mem_cons, hne, false_or, reduceCtorEq]

theorem leftover_isSome {ls : List IdList} {i j : Nat} (hij : i ≤ j)
    (h : (leftover ls j).isSome) : (leftover ls i).isSome := by
  rw [leftover, List.findSome?_isSome_iff] at h ⊢
  obtain ⟨l, hl, hcell⟩ := h
  refine ⟨l, hl, ?_⟩
  by_cases hlarge : l.Large
  case pos =>
    rw [if_pos hlarge] at hcell
    exact absurd hcell (by decide)
  rw [if_neg hlarge] at hcell ⊢
  rw [Option.isSome_iff_ne_none, Ne, List.getElem?_eq_none_iff] at hcell ⊢
  omega

theorem leftover_ne_zero {ls : List IdList} (hls : ∀ l ∈ ls, l.Valid) (i : Nat) :
    leftover ls i ≠ some 0 := by
  intro h
  obtain ⟨l, hl, hcell⟩ := List.exists_of_findSome?_eq_some h
  by_cases hlarge : l.Large
  case pos =>
    rw [if_pos hlarge] at hcell
    cases hcell
  rw [if_neg hlarge] at hcell
  exact (hls l (List.mem_reverse.1 hl)).nonzero (List.mem_of_getElem? hcell)

/-- No cell has the terminator. -/
theorem cells_nonzero {ls : List IdList} {l : IdList} (hls : ∀ l ∈ ls, l.Valid) (hl : l.Valid) :
    some 0 ∉ l.cells ls := by
  intro h
  obtain ⟨i, -, hcell⟩ := List.mem_map.1 h
  rw [IdList.cell, Option.or_eq_some_iff] at hcell
  rcases hcell with hid | ⟨-, hleft⟩
  · exact hl.nonzero (List.mem_of_getElem? hid)
  · split at hleft
    · cases hleft
    · exact leftover_ne_zero hls i hleft

/-- Cells are set from the beginning on. -/
theorem cells_pairwise (ls : List IdList) (l : IdList) :
    (l.cells ls).Pairwise fun c d => d.isSome → c.isSome := by
  rw [IdList.cells, List.pairwise_map]
  refine List.pairwise_lt_range.imp fun hij hset => ?_
  rw [IdList.cell, Option.isSome_or, Bool.or_eq_true] at hset ⊢
  rcases hset with hid | hleft
  · rw [Option.isSome_iff_ne_none, Ne, List.getElem?_eq_none_iff] at hid
    refine .inl ?_
    rw [Option.isSome_iff_ne_none, Ne, List.getElem?_eq_none_iff]
    omega
  · refine .inr ?_
    by_cases hlarge : l.Large
    case pos =>
      rw [if_pos hlarge] at hleft
      exact absurd hleft (by decide)
    rw [if_neg hlarge] at hleft ⊢
    exact leftover_isSome hij.le hleft

/-- The cells up to the terminator. -/
theorem store_range {n : Nat} {count : Int} (hcount : 0 ≤ count) (hlt : count < n)
    (f : Nat → Option VisualID) : ∃ tail, store ((List.range n).map f) count (some 0) =
      some ((List.range count.toNat).map f ++ some 0 :: tail) := by
  have hlen : ((List.range n).map f).length = n := by rw [List.length_map, List.length_range]
  have htake : ((List.range n).map f).take count.toNat = (List.range count.toNat).map f := by
    rw [← List.map_take, List.take_range, Nat.min_eq_left (by omega)]
  refine ⟨((List.range n).map f).drop (count.toNat + 1), ?_⟩
  rw [store, if_pos (by omega), List.set_eq_take_append_cons_drop, if_pos (by omega), htake]

/-- The search in the list that `buildList` ends with. -/
theorem walk_last {pre ls : List IdList} {l : IdList} {pList : Pointer}
    (hpre : ∀ l ∈ pre, l.Valid) (hl : l.Valid) (hends : l.Ends malloc v1)
    (hobtained : l.Obtained malloc) :
    (walk malloc v1 (l :: ls) pList (leftCells pre)).bind (fun r => r.1.search r.2 v2) =
      if l.count < intMax then
        if some v2 ∈ l.cells pre then some true else if none ∈ l.cells pre then none else some false
      else none := by
  have hsize : initListSize.toInt = 100 := rfl
  have hmax : intMax = 2 ^ 31 - 1 := rfl
  have hfound : v1 ∈ l.ids := hends.resolve_right (not_not_intro hobtained)
  have hlen := hl.length
  have hpos : 0 ≤ l.count := by
    have hids := List.length_pos_of_mem hfound
    omega
  rw [walk, if_pos hobtained]
  by_cases hlarge : l.Large
  case pos =>
    have hcell : (fun i => l.ids[i]?.or none) = l.cell pre := by
      funext i
      rw [IdList.cell, if_pos hlarge]
    obtain ⟨tail, hstore⟩ := store_range (n := l.count.toNat + 1) hpos (by omega) (l.cell pre)
    rw [if_pos hlarge, if_pos hlarge.2, unsetCells_eq, storeEach_range (by omega), Option.bind_some,
      if_pos hfound, hcell, hstore, Option.map_some, Option.bind_some]
    exact searchList_eq tail v2 (cells_nonzero hpre hl) (cells_pairwise pre l)
  rw [if_neg hlarge]
  by_cases hcount : l.count < intMax
  case pos =>
    have hcell : (fun i => l.ids[i]?.or (leftover pre i)) = l.cell pre := by
      funext i
      rw [IdList.cell, if_neg hlarge]
    have hsmall : l.count < 100 := by
      rw [IdList.Large] at hlarge
      omega
    obtain ⟨tail, hstore⟩ := store_range (n := initListSize.toInt.toNat) hpos (by omega)
      (l.cell pre)
    rw [if_pos hcount, leftCells, storeEach_range (by omega), Option.bind_some, if_pos hfound,
      hcell, hstore, Option.map_some, Option.bind_some]
    exact searchList_eq tail v2 (cells_nonzero hpre hl) (cells_pairwise pre l)
  rw [if_neg hcount]
  -- the terminator of a list of `INT_MAX` elements is not in the array
  cases hstore : storeEach (leftCells pre) 0 (l.ids.map some) with
  | none => rfl
  | some cells =>
    have hcells : cells.length = 100 := by
      rw [storeEach_length hstore, leftCells, List.length_map, List.length_range]
      rfl
    rw [Option.bind_some, if_pos hfound, store, if_neg (by omega)]
    rfl

/-! ## The answer -/

section

variable (malloc v1 string)

/-- The lists from the one on that `buildList` ends with. -/
def rest : List IdList := (intLists string).dropWhile fun l => ¬l.Ends malloc v1

theorem before_append_rest :
    intLists string = before malloc v1 string ++ rest malloc v1 string :=
  List.takeWhile_append_dropWhile.symm

theorem last_eq : last malloc v1 string = (rest malloc v1 string).head? := by
  rw [last, rest, List.find?_eq_head?_dropWhile_not]
  simp only [decide_not]

theorem before_ends : ∀ l ∈ before malloc v1 string, ¬l.Ends malloc v1 := fun l hl => by
  simpa using List.mem_takeWhile_imp hl

end

theorem before_valid : ∀ l ∈ before malloc v1 string, l.Valid := fun l hl =>
  intLists_valid l ((List.takeWhile_sublist _).subset hl)

theorem areEquiv_eq (malloc : Nat → Bool) (string : List UInt8) (v1 v2 : VisualID) :
    areEquiv malloc string v1 v2 =
      if ∀ l ∈ before malloc v1 string, l.Fits then
        (walk malloc v1 (rest malloc v1 string)
          (if before malloc v1 string = [] then .unset else .null)
          (leftCells (before malloc v1 string))).bind fun r => r.1.search r.2 v2
      else none := by
  have hunset : unsetCells initListSize.toInt.toNat = leftCells [] := unsetCells_eq _
  rw [areEquiv, buildList_eq_walk, hunset, before_append_rest malloc v1 string,
    walk_before before_valid (before_ends malloc v1 string), List.nil_append]
  split <;> rfl

/-- The answer for a list that there is no memory for, or for which it is searched. -/
theorem areEquiv_of_last {l : IdList} (hlast : last malloc v1 string = some l)
    (hfits : ∀ l ∈ before malloc v1 string, l.Fits) : areEquiv malloc string v1 v2 =
      if l.Obtained malloc then
        if l.count < intMax then
          if some v2 ∈ l.cells (before malloc v1 string) then some true
          else if none ∈ l.cells (before malloc v1 string) then none else some false
        else none
      else some false := by
  have hends : l.Ends malloc v1 := of_decide_eq_true
    (List.find?_some (p := fun l : IdList => decide (l.Ends malloc v1)) hlast)
  have hl : l.Valid := intLists_valid l (List.mem_of_find?_eq_some hlast)
  rw [last_eq] at hlast
  obtain ⟨ls, hls⟩ := List.head?_eq_some_iff.1 hlast
  rw [areEquiv_eq, if_pos hfits, hls]
  by_cases hobtained : l.Obtained malloc
  case pos => rw [if_pos hobtained, walk_last before_valid hl hends hobtained]
  rw [if_neg hobtained, walk, if_neg hobtained]
  rfl

/-- The answer where `buildList` goes on to the end of the string. -/
theorem areEquiv_of_no_last (hlast : last malloc v1 string = none)
    (hfits : ∀ l ∈ before malloc v1 string, l.Fits) : areEquiv malloc string v1 v2 =
      if intLists string = [] then none else some false := by
  rw [last_eq, List.head?_eq_none_iff] at hlast
  have hbefore := before_append_rest malloc v1 string
  rw [hlast, List.append_nil] at hbefore
  rw [areEquiv_eq, if_pos hfits, hlast, hbefore, walk]
  split <;> rfl

/-- Where the string is readable, the answer is whether `v2` is found. -/
theorem areEquiv_of_readable (h : Readable malloc v1 v2 string) :
    areEquiv malloc string v1 v2 = some (decide (Found malloc v1 v2 string)) := by
  cases hlast : last malloc v1 string with
  | none =>
    have hnone : ¬Found malloc v1 v2 string := by
      intro ⟨l, hl, _⟩
      rw [hlast] at hl
      cases hl
    rw [areEquiv_of_no_last hlast h.room, if_neg h.nonempty, decide_eq_false hnone]
  | some l =>
    have hfound : Found malloc v1 v2 string ↔
        l.Obtained malloc ∧ some v2 ∈ l.cells (before malloc v1 string) := by
      rw [Found, hlast]
      simp only [Option.mem_def, Option.some.injEq, exists_eq_left']
    rw [areEquiv_of_last hlast h.room]
    simp only [hfound]
    by_cases hobtained : l.Obtained malloc
    case neg => simp only [hobtained, false_and, if_false, decide_false]
    obtain ⟨hcount, hcells⟩ := h.elements l hlast hobtained
    rw [if_pos hobtained, if_pos hcount]
    by_cases hcell : some v2 ∈ l.cells (before malloc v1 string)
    case pos => rw [if_pos hcell, decide_eq_true ⟨hobtained, hcell⟩]
    rw [if_neg hcell, if_neg (hcells.resolve_left hcell), decide_eq_false fun h => hcell h.2]

/-- Elsewhere there is no answer. -/
theorem areEquiv_of_not_readable (h : ¬Readable malloc v1 v2 string) :
    areEquiv malloc string v1 v2 = none := by
  by_cases hfits : ∀ l ∈ before malloc v1 string, l.Fits
  case neg => rw [areEquiv_eq, if_neg hfits]
  cases hlast : last malloc v1 string with
  | none =>
    rw [areEquiv_of_no_last hlast hfits]
    by_cases hnil : intLists string = []
    case pos => rw [if_pos hnil]
    refine absurd ⟨hnil, hfits, fun l hl => ?_⟩ h
    rw [hlast] at hl
    cases hl
  | some l =>
    rw [areEquiv_of_last hlast hfits]
    have hnonempty : intLists string ≠ [] := List.ne_nil_of_mem (List.mem_of_find?_eq_some hlast)
    have hreads : ¬(l.Obtained malloc → l.count < intMax ∧
        (some v2 ∈ l.cells (before malloc v1 string) ∨
          none ∉ l.cells (before malloc v1 string))) := by
      intro hl
      refine h ⟨hnonempty, hfits, fun l' hl' => ?_⟩
      rw [hlast] at hl'
      cases hl'
      exact hl
    rw [Classical.not_imp, not_and_or, not_or, not_not] at hreads
    obtain ⟨hobtained, hcount | ⟨hcell, hunset⟩⟩ := hreads
    · rw [if_pos hobtained, if_neg hcount]
    · rw [if_pos hobtained, if_neg hcell, if_pos hunset, ite_self]

/-! ## The documented answer -/

theorem documented_eq (p : List UInt8) : documented p =
    if (strtoul p).1 = 0 then []
    else ⟨(strtoul p).1, (takeIds (strtoul p).1 (strtoul p).2).1⟩ ::
      documented (takeIds (strtoul p).1 (strtoul p).2).2 := by
  have hzero : ((strtoul p).1 = 0 ∨ ((strtoul p).1 : Int) = 0) ↔ (strtoul p).1 = 0 := by omega
  rw [documented, lists]
  simp only [hzero, Int.toNat_natCast]
  rfl

theorem intLists_eq_documented (h : CountsFit string) : intLists string = documented string := by
  generalize hn : string.length = n
  induction n using Nat.strong_induction_on generalizing string with
  | _ n ih =>
    subst hn
    rw [CountsFit, documented_eq] at h
    rw [documented_eq, intLists_eq]
    by_cases hzero : (strtoul string).1 = 0
    case pos =>
      rw [if_pos hzero, hzero]
      rfl
    rw [if_neg hzero] at h ⊢
    rw [List.forall_mem_cons] at h
    obtain ⟨hfits, htail⟩ := h
    rw [intMax] at hfits
    dsimp only at hfits
    have hnum : (Int32.ofNat (strtoul string).1).toInt = (strtoul string).1 :=
      Int32.toInt_ofNat_of_lt (by omega)
    have hnonzero : Int32.ofNat (strtoul string).1 ≠ 0 := by
      rw [Ne, ← Int32.toInt_inj, hnum, Int32.toInt_zero]
      omega
    have hnext : nextList string = (takeIds (strtoul string).1 (strtoul string).2).2 := by
      rw [nextList, hnum, Int.toNat_natCast]
    rw [if_neg hnonzero, firstList, hnum, Int.toNat_natCast, ← hnext]
    rw [← hnext] at htail
    rw [ih _ (nextList_length hnonzero) htail rfl]

/-- Before the list that `buildList` ends with, there is none with `v1`. -/
theorem find?_intLists {l : IdList} (hlast : last malloc v1 string = some l)
    (hobtained : l.Obtained malloc) : (intLists string).find? (fun l => v1 ∈ l.ids) = some l := by
  rw [last, List.find?_eq_some_iff_append] at hlast
  obtain ⟨hends, ls, ls', hsplit, hls⟩ := hlast
  rw [List.find?_eq_some_iff_append]
  refine ⟨decide_eq_true ((of_decide_eq_true hends).resolve_right (not_not_intro hobtained)), ls,
    ls', hsplit, fun l' hl' => ?_⟩
  have hbefore := hls l' hl'
  rw [Bool.not_eq_true', decide_eq_false_iff_not] at hbefore ⊢
  exact fun h => hbefore (.inl h)

/-- An id that was decoded is in a cell. -/
theorem mem_cells {ls : List IdList} {l : IdList} (hl : l.Valid) {v : VisualID} (hv : v ∈ l.ids) :
    some v ∈ l.cells ls := by
  obtain ⟨i, hi, hget⟩ := List.getElem_of_mem hv
  have hlen := hl.length
  refine List.mem_map.2 ⟨i, List.mem_range.2 (by omega), ?_⟩
  rw [IdList.cell, List.getElem?_eq_getElem hi, hget]
  rfl

/-- The conditions hold of lists that are complete, where there is memory for them. -/
theorem answered_of_complete (hmalloc : ∀ n, malloc n = true) (hnonempty : documented string ≠ [])
    (hcomplete : ∀ l ∈ documented string, l.ids.length = l.count ∧ l.count < intMax) :
    Answered malloc v1 v2 string := by
  have hfit : CountsFit string := fun l hl => Int.le_of_lt (hcomplete l hl).2
  rw [← intLists_eq_documented hfit] at hnonempty hcomplete
  have hcells : ∀ l ∈ last malloc v1 string, ∀ c ∈ l.cells (before malloc v1 string),
      ∃ v ∈ l.ids, c = some v := by
    intro l hlast c hc
    obtain ⟨hlen, -⟩ := hcomplete l (List.mem_of_find?_eq_some hlast)
    obtain ⟨i, hi, rfl⟩ := List.mem_map.1 hc
    have hlt : i < l.ids.length := by
      rw [List.mem_range] at hi
      omega
    refine ⟨l.ids[i], List.getElem_mem hlt, ?_⟩
    rw [IdList.cell, List.getElem?_eq_getElem hlt]
    rfl
  refine ⟨⟨hnonempty, fun l hl hmax => ?_, fun l hlast _ => ⟨?_, .inr fun hnone => ?_⟩⟩,
    fun _ l hlast _ hcell => ?_, fun _ l _ hobtained => ?_, fun h => absurd hfit h⟩
  · have hlt := (hcomplete l ((List.takeWhile_sublist _).subset hl)).2
    exact absurd hmax (Int.ne_of_lt hlt)
  · exact (hcomplete l (List.mem_of_find?_eq_some hlast)).2
  · obtain ⟨v, -, hv⟩ := hcells l hlast none hnone
    cases hv
  · obtain ⟨v, hv, hv2⟩ := hcells l hlast (some v2) hcell
    rwa [Option.some.inj hv2]
  · exact absurd (fun _ => hmalloc _) hobtained

/-- **The answer of `areEquiv`** is the documented one iff the string is readable, an earlier list
has not left `v2` behind the elements of the list that is searched, and neither the memory nor the
range of an `int` is exceeded to the effect that another list decides. -/
theorem areEquiv_iff (malloc : Nat → Bool) (string : List UInt8) (v1 v2 : VisualID) :
    areEquiv malloc string v1 v2 = some (decide (Equivalent (documented string) v1 v2)) ↔
      Answered malloc v1 v2 string := by
  constructor
  · intro h
    by_cases hreadable : Readable malloc v1 v2 string
    case neg =>
      rw [areEquiv_of_not_readable hreadable] at h
      cases h
    rw [areEquiv_of_readable hreadable, Option.some.injEq, decide_eq_decide] at h
    refine ⟨hreadable, fun hfit l hlast hobtained hcell => ?_, fun _ l hlast hobtained hequiv => ?_,
      fun _ => h⟩
    · obtain ⟨l', hl', hv⟩ := h.1 ⟨l, hlast, hobtained, hcell⟩
      rw [← intLists_eq_documented hfit, find?_intLists hlast hobtained] at hl'
      cases hl'
      exact hv
    · obtain ⟨l', hlast', hobtained', -⟩ := h.2 hequiv
      rw [Option.mem_unique hlast' hlast] at hobtained'
      exact hobtained hobtained'
  · intro h
    rw [areEquiv_of_readable h.readable, Option.some.injEq, decide_eq_decide]
    by_cases hfit : CountsFit string
    case neg => exact h.overflow hfit
    constructor
    · intro ⟨l, hlast, hobtained, hcell⟩
      refine ⟨l, ?_, h.ids hfit l hlast hobtained hcell⟩
      rw [← intLists_eq_documented hfit, find?_intLists hlast hobtained]
      rfl
    · intro hequiv
      obtain ⟨l, hfind, hv⟩ := id hequiv
      rw [← intLists_eq_documented hfit] at hfind
      cases hlast : last malloc v1 string with
      | none =>
        have hends := List.find?_eq_none.1 hlast l (List.mem_of_find?_eq_some hfind)
        have hfound := List.find?_some (Option.mem_def.1 hfind)
        rw [decide_eq_true_eq] at hends hfound
        exact absurd (.inl hfound) hends
      | some l' =>
        by_cases hobtained : l'.Obtained malloc
        case neg => exact absurd hequiv (h.obtained hfit l' hlast hobtained)
        have hfind' := find?_intLists hlast hobtained
        rw [Option.mem_unique hfind' hfind] at hlast hobtained
        have hl := intLists_valid l (List.mem_of_find?_eq_some hfind)
        exact ⟨l, hlast, hobtained, mem_cells hl hv⟩

/-- `"2 5 7 2 1"`: the second list is broken off. -/
def brokenOff : List UInt8 := [0x32, 0x20, 0x35, 0x20, 0x37, 0x20, 0x32, 0x20, 0x31]

theorem intLists_brokenOff : intLists brokenOff = [⟨2, [5, 7]⟩, ⟨2, [1]⟩] := by
  rw [intLists_eq, if_neg (by decide), intLists_eq, if_neg (by decide), intLists_eq,
    if_pos (by decide)]
  rfl

/-- The first list's 7 is taken for an element of the second one; and where there is no list, a
pointer is used that was never set. -/
theorem areEquiv_brokenOff :
    areEquiv (fun _ => true) brokenOff 1 7 = some true ∧
      ¬Equivalent (documented brokenOff) 1 7 ∧ areEquiv (fun _ => true) [] 1 7 = none := by
  have hlists : documented brokenOff = [⟨2, [5, 7]⟩, ⟨2, [1]⟩] := by
    rw [documented_eq, if_neg (by decide), documented_eq, if_neg (by decide), documented_eq,
      if_pos (by decide)]
    rfl
  refine ⟨?_, ?_, ?_⟩
  · rw [areEquiv, buildList_eq_walk, intLists_brokenOff]
    rfl
  · rw [hlists]
    decide
  · rw [areEquiv, buildList_eq_walk, intLists_eq, if_pos (by decide)]
    rfl

end X11.CmapEquiv
