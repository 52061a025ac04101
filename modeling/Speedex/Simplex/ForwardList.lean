import Speedex.Lib.LinkedCells
import Speedex.Simplex.Allocator

/-! The linked lists of the sparse tableau (`buffered_forward_list` in `simplex/allocator.h`), which
share one allocator: a list is the address of a cell, and the cells after that one have its
elements. -/

namespace Speedex

open Lib

/-! ### The source -/

structure BufferedForwardList where
  beforeListEltAddr : UInt64

namespace BufferedForwardList

/-- The cell of an iterator; `end()` has none. -/
abbrev Iterator := Option CellPtr

namespace Iterator

/-- `operator++` -/
def next (alloc : Allocator) (it : Iterator) : Result Iterator := do
  alloc.get (← alloc.load it)

/-- `operator*` -/
def value (alloc : Allocator) (it : Iterator) : Result UInt16 := do
  return Allocator.getValue (← alloc.load it)

def insertAfter (alloc : Allocator) (it : Iterator) (val : UInt16) :
    Result (Iterator × Allocator) := do
  let (newObjAddr, alloc) ← alloc.allocate
  let newObj ← alloc.get newObjAddr
  let alloc ← alloc.store newObj
    (Allocator.copyNextObjPtr (← alloc.load newObj) (← alloc.load it))
  let alloc ← alloc.store newObj (Allocator.setValue (← alloc.load newObj) val)
  let alloc ← alloc.store it (Allocator.copyNextObjPtr (← alloc.load it) newObjAddr)
  return (newObj, alloc)

def eraseAfter (alloc : Allocator) (it : Iterator) : Result (Iterator × Allocator) := do
  if it.isNone then
    throw (.runtimeError "can't erase after list end")
  let nextObj ← alloc.get (← alloc.load it)
  -- the cell is freed before its link is read
  let alloc ← alloc.free (← alloc.load it)
  let alloc ← alloc.store it
    (Allocator.copyNextObjPtr (← alloc.load it) (← alloc.load nextObj))
  return (← alloc.get (← alloc.load it), alloc)

end Iterator

def new (alloc : Allocator) : Result (BufferedForwardList × Allocator) := do
  let (addr, alloc) ← alloc.allocate
  let alloc ← alloc.store (← alloc.get addr) 0
  return (⟨addr⟩, alloc)

def begin (alloc : Allocator) (list : BufferedForwardList) : Result Iterator := do
  let firstEltAddr ← alloc.load (← alloc.get list.beforeListEltAddr)
  if firstEltAddr = 0 then
    return none
  alloc.get firstEltAddr

def beforeBegin (alloc : Allocator) (list : BufferedForwardList) : Result Iterator :=
  alloc.get list.beforeListEltAddr

/-- The loop of `clear`. -/
def clearLoop (backIt : Iterator) : Nat → Iterator → Allocator → Result Allocator
  | _, none, alloc => .ok alloc
  | 0, some _, _ => .error .nontermination
  | fuel + 1, some _, alloc => do
    let (it, alloc) ← Iterator.eraseAfter alloc backIt
    clearLoop backIt fuel it alloc

def clear (fuel : Nat) (alloc : Allocator) (list : BufferedForwardList) : Result Allocator := do
  let backIt ← list.beforeBegin alloc
  let it ← list.begin alloc
  clearLoop backIt fuel it alloc

/-- The cells and the elements from an iterator to `end()`. -/
def cellsFrom (alloc : Allocator) : Nat → Iterator → Result (List (CellPtr × UInt16))
  | _, none => .ok []
  | 0, some _ => .error .nontermination
  | fuel + 1, some p => do
    let value ← Iterator.value alloc (some p)
    let it ← Iterator.next alloc (some p)
    let cells ← cellsFrom alloc fuel it
    return (p, value) :: cells

/-- An iteration over a list. -/
def cells (fuel : Nat) (alloc : Allocator) (list : BufferedForwardList) :
    Result (List (CellPtr × UInt16)) := do
  cellsFrom alloc fuel (← list.begin alloc)

/-- The elements that an iteration yields. -/
def values (fuel : Nat) (alloc : Allocator) (list : BufferedForwardList) :
    Result (List UInt16) := do
  return (← list.cells fuel alloc).map Prod.snd

/-- `p` increments of an iterator. -/
def advance (alloc : Allocator) : Nat → Iterator → Result Iterator
  | 0, it => .ok it
  | p + 1, it => do advance alloc p (← Iterator.next alloc it)

/-- The iterator to the element before position `p`. -/
def iteratorAt (alloc : Allocator) (list : BufferedForwardList) (p : Nat) : Result Iterator := do
  advance alloc p (← list.beforeBegin alloc)

end BufferedForwardList

/-! ### Runs -/

/-- The allocator, and the lists in it in the order of their construction. -/
structure Arena where
  alloc : Allocator
  lists : List BufferedForwardList

/-- What is done with the lists; `i` is the number of a list and `p` a position in it. -/
inductive ListOp where
  | construct
  | clear (i : Nat)
  | insertAfter (i p : Nat) (value : UInt16)
  | eraseAfter (i p : Nat)
deriving DecidableEq, Repr

namespace Arena

def new : Arena := ⟨.new, []⟩

def runOp (fuel : Nat) (arena : Arena) : ListOp → Result Arena
  | .construct => do
    let (list, alloc) ← BufferedForwardList.new arena.alloc
    return ⟨alloc, arena.lists ++ [list]⟩
  | .clear i =>
    match arena.lists[i]? with
    | none => .error .indexOutOfRange
    | some list => do
      let alloc ← list.clear fuel arena.alloc
      return ⟨alloc, arena.lists⟩
  | .insertAfter i p value =>
    match arena.lists[i]? with
    | none => .error .indexOutOfRange
    | some list => do
      let it ← list.iteratorAt arena.alloc p
      let (_, alloc) ← it.insertAfter arena.alloc value
      return ⟨alloc, arena.lists⟩
  | .eraseAfter i p =>
    match arena.lists[i]? with
    | none => .error .indexOutOfRange
    | some list => do
      let it ← list.iteratorAt arena.alloc p
      let (_, alloc) ← it.eraseAfter arena.alloc
      return ⟨alloc, arena.lists⟩

def runOps (fuel : Nat) (ops : List ListOp) : Result Arena := ops.foldlM (runOp fuel) .new

end Arena

/-- What an operation does to lists of values, if there is such a list and such a position. -/
def applyOp (lists : List (List UInt16)) : ListOp → Option (List (List UInt16))
  | .construct => some (lists ++ [[]])
  | .clear i => if i < lists.length then some (lists.set i []) else none
  | .insertAfter i p value => do
    let l ← lists[i]?
    if p ≤ l.length then some (lists.set i (l.insertIdx p value)) else none
  | .eraseAfter i p => do
    let l ← lists[i]?
    if p < l.length then some (lists.set i (l.eraseIdx p)) else none

def applyOps (ops : List ListOp) : Option (List (List UInt16)) := ops.foldlM applyOp []

/-! ### One list -/

namespace Allocator

/-- The cell that a cell is linked to. -/
def nextOf (alloc : Allocator) (p : CellPtr) : Option CellPtr := cellOf (alloc.word p)

def valueOf (alloc : Allocator) (p : CellPtr) : UInt16 := getValue (alloc.word p)

/-- The cells `cs` are those of the list with the head `head`. -/
def HoldsList (alloc : Allocator) (head : CellPtr) (cs : List (CellPtr × UInt16)) : Prop :=
  Linked alloc.nextOf alloc.valueOf head cs

end Allocator

namespace BufferedForwardList

variable {alloc alloc' : Allocator} {list : BufferedForwardList} {head c q : CellPtr} {val : UInt16}
  {cs : List (CellPtr × UInt16)} {rest : List CellPtr} {p fuel : Nat}

theorem holdsList_congr (h : alloc.HoldsList head cs)
    (hword : ∀ x ∈ addresses head cs, alloc'.word x = alloc.word x) : alloc'.HoldsList head cs := by
  apply Linked.congr h
  · intro x hx
    rw [Allocator.nextOf, Allocator.nextOf, hword x hx]
  · intro x hx
    rw [Allocator.valueOf, Allocator.valueOf, hword x (List.mem_cons_of_mem head hx)]

/-- The iterator at a cell of the list. -/
theorem next_spec (hinv : AllocatorInv alloc (addresses head cs ++ rest))
    (hlist : alloc.HoldsList head cs) (hc : (addresses head cs)[p]? = some c) :
    Iterator.next alloc (some c) = .ok ((cs[p]?).map Prod.fst) := by
  have hmem : c ∈ addresses head cs ++ rest := List.mem_append_left rest (List.mem_of_getElem? hc)
  have hnext : cellOf (alloc.word c) = (cs[p]?).map Prod.fst := Linked.next_eq hlist hc
  rw [Iterator.next, Allocator.load_eq (hinv.inRow c hmem), ok_bind]
  cases hd : cs[p]? with
  | none =>
    rw [hd] at hnext
    exact Allocator.get_of_none hnext
  | some d =>
    rw [hd] at hnext
    have hmem' : d.1 ∈ addresses head cs ++ rest := by
      apply List.mem_append_left
      exact List.mem_cons_of_mem head (List.mem_map_of_mem (List.mem_of_getElem? hd))
    exact Allocator.get_of_some hnext (hinv.inRow d.1 hmem')

theorem insertAfter_spec (hinv : AllocatorInv alloc (addresses head cs ++ rest))
    (hlist : alloc.HoldsList head cs) (hc : (addresses head cs)[p]? = some c) (val : UInt16) :
    ∃ n alloc', Iterator.insertAfter alloc (some c) val = .ok (some n, alloc') ∧
      (∀ q ∈ rest, alloc'.word q = alloc.word q) ∧
      alloc'.HoldsList head (cs.insertIdx p (n, val)) ∧
      alloc'.buffers.length ≤ alloc.buffers.length + 1 ∧
      (alloc'.buffers.length < 2 ^ 32 →
        AllocatorInv alloc' (addresses head (cs.insertIdx p (n, val)) ++ rest)) := by
  obtain ⟨addr, n, alloc₁, halloc, haddr, hfresh, hn, hword, hle, hle', hinv₁⟩ :=
    Allocator.allocate_spec hinv
  have hcmem : c ∈ addresses head cs := List.mem_of_getElem? hc
  have hcrow : c.row < alloc₁.buffers.length :=
    Nat.lt_of_lt_of_le (hinv.inRow c (List.mem_append_left rest hcmem)) hle
  have hcn : c ≠ n := fun heq => hfresh (heq ▸ List.mem_append_left rest hcmem)
  -- the new cell gets the link of `c` and its value, and then `c` is linked to the new cell
  obtain ⟨alloc₂, hstore₂, hword₂, hlen₂, hinv₂⟩ := Allocator.store_spec hn
    (Allocator.copyNextObjPtr (alloc₁.word n) (alloc₁.word c))
  have hn₂ : n.row < alloc₂.buffers.length := by omega
  obtain ⟨alloc₃, hstore₃, hword₃, hlen₃, hinv₃⟩ :=
    Allocator.store_spec hn₂ (Allocator.setValue (alloc₂.word n) val)
  have hcrow₃ : c.row < alloc₃.buffers.length := by omega
  obtain ⟨alloc₄, hstore₄, hword₄, hlen₄, hinv₄⟩ :=
    Allocator.store_spec hcrow₃ (Allocator.copyNextObjPtr (alloc₃.word c) addr)
  have hwordn : alloc₄.word n = Allocator.setValue
      (Allocator.copyNextObjPtr (alloc.word n) (alloc.word c)) val := by
    rw [hword₄, Function.update_of_ne (Ne.symm hcn), hword₃, Function.update_self, hword₂,
      Function.update_self, hword]
  have hother : ∀ q, q ≠ n → alloc₃.word q = alloc.word q := fun q hq => by
    rw [hword₃, Function.update_of_ne hq, hword₂, Function.update_of_ne hq, hword]
  have hwordc : alloc₄.word c = Allocator.copyNextObjPtr (alloc.word c) addr := by
    rw [hword₄, Function.update_self, hother c hcn]
  have hframe : ∀ q, q ≠ n → q ≠ c → alloc₄.word q = alloc.word q := fun q hqn hqc => by
    rw [hword₄, Function.update_of_ne hqc, hother q hqn]
  obtain ⟨hnodup, -, hdisjoint⟩ := List.nodup_append.mp hinv.nodup
  have hnotin : n ∉ addresses head cs := fun hin => hfresh (List.mem_append_left rest hin)
  refine ⟨n, alloc₄, ?_, fun q hq => ?_, ?_, by omega, fun hfew => ?_⟩
  · rw [Iterator.insertAfter, halloc]
    simp only [ok_bind, Allocator.get_of_some haddr hn, Allocator.load_eq hn,
      Allocator.load_eq hcrow, hstore₂, Allocator.load_eq hn₂, hstore₃, Allocator.load_eq hcrow₃,
      hstore₄]
    rfl
  · apply hframe
    · exact fun heq => hfresh (heq ▸ List.mem_append_right _ hq)
    · exact fun heq => hdisjoint c hcmem q hq heq.symm
  · refine Linked.insertIdx hlist hc hnodup hnotin ?_ ?_ (fun x hx hxc => ?_) ?_ fun x hx => ?_
    · rw [Allocator.nextOf, hwordn, Allocator.cellOf_setValue, Allocator.cellOf_copyNextObjPtr]
      rfl
    · rw [Allocator.nextOf, hwordc, Allocator.cellOf_copyNextObjPtr, haddr]
    · rw [Allocator.nextOf, hframe x (fun heq => hnotin (heq ▸ hx)) hxc]
      rfl
    · rw [Allocator.valueOf, hwordn, Allocator.getValue_setValue]
    · have hxn : x ≠ n := fun heq => hnotin (heq ▸ List.mem_cons_of_mem head hx)
      by_cases hxc : x = c
      · rw [hxc, Allocator.valueOf, hwordc, Allocator.getValue_copyNextObjPtr]
        rfl
      · rw [Allocator.valueOf, hframe x hxn hxc]
        rfl
  · have hp : p ≤ cs.length := by
      have hlt := (List.getElem?_eq_some_iff.mp hc).1
      rw [addresses, List.length_cons, List.length_map] at hlt
      omega
    have hperm := (addresses_insertIdx_perm head n val hp).append_right rest
    exact hinv₄ _ (hinv₃ _ (hinv₂ _ ((hinv₁ (by omega)).perm hperm.symm)))

theorem eraseAfter_spec {d : CellPtr × UInt16}
    (hinv : AllocatorInv alloc (addresses head cs ++ rest)) (hlist : alloc.HoldsList head cs)
    (hc : (addresses head cs)[p]? = some c)
    (hd : cs[p]? = some d) :
    ∃ alloc', Iterator.eraseAfter alloc (some c) =
        .ok (((cs.eraseIdx p)[p]?).map Prod.fst, alloc') ∧
      (∀ q ∈ rest, alloc'.word q = alloc.word q) ∧ alloc'.HoldsList head (cs.eraseIdx p) ∧
      AllocatorInv alloc' (addresses head (cs.eraseIdx p) ++ rest) ∧
      alloc'.buffers.length = alloc.buffers.length := by
  have hcmem : c ∈ addresses head cs := List.mem_of_getElem? hc
  have hcrow := hinv.inRow c (List.mem_append_left rest hcmem)
  have hdmem : d.1 ∈ addresses head cs :=
    List.mem_cons_of_mem head (List.mem_map_of_mem (List.mem_of_getElem? hd))
  have hdrow := hinv.inRow d.1 (List.mem_append_left rest hdmem)
  have hnext : cellOf (alloc.word c) = some d.1 := by
    have hlink := Linked.next_eq hlist hc
    rw [hd] at hlink
    exact hlink
  obtain ⟨hnodup, -, hdisjoint⟩ := List.nodup_append.mp hinv.nodup
  have hperm := (addresses_eraseIdx_perm head hd).append_right rest
  obtain ⟨alloc₁, hfree, hinv₁, hword₁, hlen₁⟩ := Allocator.free_spec (hinv.perm hperm) hnext
  have hcrow₁ : c.row < alloc₁.buffers.length := by omega
  have hdrow₁ : d.1.row < alloc₁.buffers.length := by omega
  -- the words of the freed cell are as they were
  obtain ⟨alloc₂, hstore, hword₂, hlen₂, hinv₂⟩ := Allocator.store_spec hcrow₁
    (Allocator.copyNextObjPtr (alloc₁.word c) (alloc₁.word d.1))
  have hwordc : alloc₂.word c = Allocator.copyNextObjPtr (alloc.word c) (alloc.word d.1) := by
    rw [hword₂, Function.update_self, hword₁]
  have hframe : ∀ q, q ≠ c → alloc₂.word q = alloc.word q := fun q hq => by
    rw [hword₂, Function.update_of_ne hq, hword₁]
  have hlist₂ : alloc₂.HoldsList head (cs.eraseIdx p) := by
    refine Linked.eraseIdx hlist hc hd hnodup ?_ (fun x _ hxc => ?_) fun x _ => ?_
    · rw [Allocator.nextOf, hwordc, Allocator.cellOf_copyNextObjPtr]
      rfl
    · rw [Allocator.nextOf, hframe x hxc]
      rfl
    · by_cases hxc : x = c
      · rw [hxc, Allocator.valueOf, hwordc, Allocator.getValue_copyNextObjPtr]
        rfl
      · rw [Allocator.valueOf, hframe x hxc]
        rfl
  have hc₂ : (addresses head (cs.eraseIdx p))[p]? = some c := by
    rw [getElem?_addresses_eraseIdx, hc]
  have hnext₂ := next_spec (hinv₂ _ hinv₁) hlist₂ hc₂
  refine ⟨alloc₂, ?_, fun q hq => ?_, hlist₂, hinv₂ _ hinv₁, hlen₂.trans hlen₁⟩
  · have hcrow₂ : c.row < alloc₂.buffers.length := by omega
    rw [Iterator.next, Allocator.load_eq hcrow₂, ok_bind] at hnext₂
    rw [Iterator.eraseAfter, Allocator.load_eq hcrow]
    simp only [Option.isNone_some, Bool.false_eq_true, if_false, ok_bind,
      Allocator.get_of_some hnext hdrow, hfree, Allocator.load_eq hcrow₁,
      Allocator.load_eq hdrow₁, hstore, Allocator.load_eq hcrow₂, hnext₂]
    rfl
  · exact hframe q fun heq => hdisjoint c hcmem q hq heq.symm

/-- `clear` erases the first element until there is none. -/
theorem clearLoop_spec (hinv : AllocatorInv alloc (addresses head cs ++ rest))
    (hlist : alloc.HoldsList head cs) (hfuel : cs.length ≤ fuel) :
    ∃ alloc', clearLoop (some head) fuel (cs.head?.map Prod.fst) alloc = .ok alloc' ∧
      (∀ q ∈ rest, alloc'.word q = alloc.word q) ∧ alloc'.HoldsList head [] ∧
      AllocatorInv alloc' (addresses head ([] : List (CellPtr × UInt16)) ++ rest) ∧
      alloc'.buffers.length = alloc.buffers.length := by
  induction cs generalizing alloc fuel with
  | nil => exact ⟨alloc, by cases fuel <;> rfl, fun _ _ => rfl, hlist, hinv, rfl⟩
  | cons d cs ih =>
    cases fuel with
    | zero => cases hfuel
    | succ fuel =>
      obtain ⟨alloc₁, herase, hframe₁, hlist₁, hinv₁, hlen₁⟩ :=
        eraseAfter_spec (p := 0) hinv hlist rfl rfl
      obtain ⟨alloc₂, hclear, hframe₂, hlist₂, hinv₂, hlen₂⟩ :=
        ih hinv₁ hlist₁ (Nat.le_of_succ_le_succ hfuel)
      refine ⟨alloc₂, ?_, fun q hq => (hframe₂ q hq).trans (hframe₁ q hq), hlist₂, hinv₂,
        hlen₂.trans hlen₁⟩
      rw [List.eraseIdx_cons_zero, ← List.head?_eq_getElem?] at herase
      rw [List.head?_cons, Option.map_some, clearLoop, herase]
      exact hclear

/-- The cells from an iterator on. -/
theorem cellsFrom_spec (hinv : AllocatorInv alloc (addresses head cs ++ rest))
    (hlist : alloc.HoldsList head cs) (hfuel : cs.length ≤ fuel) :
    cellsFrom alloc fuel (cs.head?.map Prod.fst) = .ok cs := by
  induction cs generalizing head fuel rest with
  | nil => cases fuel <;> rfl
  | cons d cs ih =>
    cases fuel with
    | zero => cases hfuel
    | succ fuel =>
      have hperm : (addresses head (d :: cs) ++ rest).Perm (addresses d.1 cs ++ head :: rest) :=
        List.perm_middle.symm
      have hnext : Iterator.next alloc (some d.1) = .ok (cs.head?.map Prod.fst) := by
        rw [List.head?_eq_getElem?]
        exact next_spec (p := 0) (hinv.perm hperm) hlist.2.2 rfl
      have hload := Allocator.load_eq
        (hinv.inRow d.1 (List.mem_append_left rest (List.mem_cons_of_mem head List.mem_cons_self)))
      have hrest := ih (hinv.perm hperm) hlist.2.2 (Nat.le_of_succ_le_succ hfuel)
      have hvalue : Allocator.getValue (alloc.word d.1) = d.2 := hlist.2.1
      rw [List.head?_cons, Option.map_some, cellsFrom, Iterator.value, hload, hnext]
      simp only [ok_bind, hrest, hvalue]
      rfl

theorem begin_spec (hinv : AllocatorInv alloc (addresses head cs ++ rest))
    (hlist : alloc.HoldsList head cs) (hhead : cellOf list.beforeListEltAddr = some head) :
    list.begin alloc = .ok (cs.head?.map Prod.fst) := by
  have hrow := hinv.inRow head List.mem_cons_self
  have hnext : Iterator.next alloc (some head) = .ok ((cs[0]?).map Prod.fst) :=
    next_spec hinv hlist rfl
  rw [Iterator.next, Allocator.load_eq hrow, ok_bind, ← List.head?_eq_getElem?] at hnext
  rw [begin, Allocator.get_of_some hhead hrow, ok_bind, Allocator.load_eq hrow, ok_bind]
  split
  · rename_i hzero
    rw [hzero, Allocator.get_of_none Allocator.cellOf_zero] at hnext
    exact hnext
  · exact hnext

theorem cells_spec (hinv : AllocatorInv alloc (addresses head cs ++ rest))
    (hlist : alloc.HoldsList head cs) (hhead : cellOf list.beforeListEltAddr = some head)
    (hfuel : cs.length ≤ fuel) : list.cells fuel alloc = .ok cs := by
  rw [cells, begin_spec hinv hlist hhead, ok_bind]
  exact cellsFrom_spec hinv hlist hfuel

theorem clear_spec (hinv : AllocatorInv alloc (addresses head cs ++ rest))
    (hlist : alloc.HoldsList head cs) (hhead : cellOf list.beforeListEltAddr = some head)
    (hfuel : cs.length ≤ fuel) :
    ∃ alloc', list.clear fuel alloc = .ok alloc' ∧
      (∀ q ∈ rest, alloc'.word q = alloc.word q) ∧ alloc'.HoldsList head [] ∧
      AllocatorInv alloc' (addresses head ([] : List (CellPtr × UInt16)) ++ rest) ∧
      alloc'.buffers.length = alloc.buffers.length := by
  rw [clear, beforeBegin, Allocator.get_of_some hhead (hinv.inRow head List.mem_cons_self),
    begin_spec hinv hlist hhead]
  exact clearLoop_spec hinv hlist hfuel

theorem advance_spec {k : Nat} (hinv : AllocatorInv alloc (addresses head cs ++ rest))
    (hlist : alloc.HoldsList head cs) (hq : (addresses head cs)[k]? = some q)
    (hc : (addresses head cs)[k + p]? = some c) : advance alloc p (some q) = .ok (some c) := by
  induction p generalizing k q with
  | zero =>
    cases hq.symm.trans hc
    rfl
  | succ p ih =>
    have hlt := (List.getElem?_eq_some_iff.mp hc).1
    obtain ⟨q', hq'⟩ : ∃ q', (addresses head cs)[k + 1]? = some q' :=
      ⟨_, List.getElem?_eq_getElem (by omega)⟩
    have hnext : Iterator.next alloc (some q) = .ok ((addresses head cs)[k + 1]?) := by
      rw [next_spec hinv hlist hq, addresses, List.getElem?_cons_succ, List.getElem?_map]
    rw [hq'] at hnext
    rw [advance, hnext, ok_bind]
    exact ih hq' (by rwa [Nat.add_right_comm])

theorem iteratorAt_spec (hinv : AllocatorInv alloc (addresses head cs ++ rest))
    (hlist : alloc.HoldsList head cs) (hhead : cellOf list.beforeListEltAddr = some head)
    (hc : (addresses head cs)[p]? = some c) : list.iteratorAt alloc p = .ok (some c) := by
  rw [iteratorAt, beforeBegin, Allocator.get_of_some hhead (hinv.inRow head List.mem_cons_self),
    ok_bind]
  exact advance_spec (k := 0) hinv hlist rfl (by rwa [Nat.zero_add])

theorem new_spec {live : List CellPtr} (hinv : AllocatorInv alloc live) :
    ∃ list n alloc', new alloc = .ok (list, alloc') ∧ cellOf list.beforeListEltAddr = some n ∧
      (∀ q ∈ live, alloc'.word q = alloc.word q) ∧ alloc'.HoldsList n [] ∧
      alloc'.buffers.length ≤ alloc.buffers.length + 1 ∧
      (alloc'.buffers.length < 2 ^ 32 → AllocatorInv alloc' (n :: live)) := by
  obtain ⟨addr, n, alloc₁, halloc, haddr, hfresh, hn, hword, -, hle, hinv₁⟩ :=
    Allocator.allocate_spec hinv
  obtain ⟨alloc₂, hstore, hword₂, hlen₂, hinv₂⟩ := Allocator.store_spec hn 0
  refine ⟨⟨addr⟩, n, alloc₂, ?_, haddr, fun q hq => ?_, ?_, by omega, fun hfew =>
    hinv₂ _ (hinv₁ (by omega))⟩
  · rw [new, halloc]
    simp only [ok_bind, Allocator.get_of_some haddr hn, hstore]
    rfl
  · have hqn : q ≠ n := fun heq => hfresh (heq ▸ hq)
    rw [hword₂, Function.update_of_ne hqn, hword]
  · show Allocator.nextOf alloc₂ n = none
    rw [Allocator.nextOf, hword₂, Function.update_self, Allocator.cellOf_zero]

end BufferedForwardList

/-! ### All lists -/

/-- The cells of the lists, with their heads. -/
abbrev ArenaCells := List (CellPtr × List (CellPtr × UInt16))

namespace ArenaCells

/-- The addresses in use. -/
def live (lists : ArenaCells) : List CellPtr := lists.flatMap fun l => addresses l.1 l.2

def values (lists : ArenaCells) : List (List UInt16) := lists.map fun l => l.2.map Prod.snd

variable {lists : ArenaCells} {i : Nat} {l : CellPtr × List (CellPtr × UInt16)} {vs : List UInt16}

theorem perm_eraseIdx (hl : lists[i]? = some l) : lists.Perm (l :: lists.eraseIdx i) := by
  obtain ⟨hi, rfl⟩ := List.getElem?_eq_some_iff.mp hl
  exact (List.getElem_cons_eraseIdx_perm hi).symm

theorem set_perm (hl : lists[i]? = some l) (l' : CellPtr × List (CellPtr × UInt16)) :
    (lists.set i l').Perm (l' :: lists.eraseIdx i) := by
  have hset : (lists.set i l')[i]? = some l' :=
    List.getElem?_set_self (List.getElem?_eq_some_iff.mp hl).1
  have hperm := perm_eraseIdx hset
  rwa [List.eraseIdx_set_eq] at hperm

theorem live_perm (hl : lists[i]? = some l) :
    (live lists).Perm (addresses l.1 l.2 ++ live (lists.eraseIdx i)) :=
  (perm_eraseIdx hl).flatMap_right _

theorem live_set_perm (hl : lists[i]? = some l) (l' : CellPtr × List (CellPtr × UInt16)) :
    (live (lists.set i l')).Perm (addresses l'.1 l'.2 ++ live (lists.eraseIdx i)) :=
  (set_perm hl l').flatMap_right _

theorem values_set : values (lists.set i l) = (values lists).set i (l.2.map Prod.snd) :=
  List.map_set

theorem getElem?_values (h : (values lists)[i]? = some vs) :
    ∃ l, lists[i]? = some l ∧ l.2.map Prod.snd = vs := by
  rw [values, List.getElem?_map] at h
  exact Option.map_eq_some_iff.mp h

end ArenaCells

/-- Each list of the arena has its cells, and no two have one in common. -/
structure ArenaInv (arena : Arena) (lists : ArenaCells) : Prop where
  heads : arena.lists.map (fun list => cellOf list.beforeListEltAddr) = lists.map fun l => some l.1
  held : ∀ l ∈ lists, arena.alloc.HoldsList l.1 l.2
  inv : AllocatorInv arena.alloc lists.live

namespace ArenaInv

variable {arena : Arena} {lists : ArenaCells} {i p fuel : Nat} {vs : List UInt16}
  {l : CellPtr × List (CellPtr × UInt16)} {cs : List (CellPtr × UInt16)}

theorem new : ArenaInv .new [] := ⟨rfl, nofun, AllocatorInv.new⟩

theorem head (h : ArenaInv arena lists) (hl : lists[i]? = some l) :
    ∃ list, arena.lists[i]? = some list ∧ cellOf list.beforeListEltAddr = some l.1 := by
  have hhead : (arena.lists[i]?).map (fun list => cellOf list.beforeListEltAddr) =
      some (some l.1) := by
    rw [← List.getElem?_map, h.heads, List.getElem?_map, hl]
    rfl
  exact Option.map_eq_some_iff.mp hhead

/-- One list changes. -/
theorem set {alloc : Allocator} (h : ArenaInv arena lists) (hl : lists[i]? = some l)
    (hframe : ∀ q ∈ ArenaCells.live (lists.eraseIdx i), alloc.word q = arena.alloc.word q)
    (hlist : alloc.HoldsList l.1 cs)
    (hinv : AllocatorInv alloc (addresses l.1 cs ++ ArenaCells.live (lists.eraseIdx i))) :
    ArenaInv ⟨alloc, arena.lists⟩ (lists.set i (l.1, cs)) := by
  refine ⟨?_, fun l' hl' => ?_, hinv.perm ?_⟩
  · have hhead : (lists.map fun l => some l.1)[i]? = some (some l.1) := by
      rw [List.getElem?_map, hl]
      rfl
    obtain ⟨hi, heq⟩ := List.getElem?_eq_some_iff.mp hhead
    rw [h.heads, List.map_set, ← heq, List.set_getElem_self]
  · rcases List.mem_cons.mp ((ArenaCells.set_perm hl (l.1, cs)).mem_iff.mp hl') with rfl | hl'
    · exact hlist
    · have hmem : l' ∈ lists :=
        (ArenaCells.perm_eraseIdx hl).mem_iff.mpr (List.mem_cons_of_mem l hl')
      refine BufferedForwardList.holdsList_congr (h.held l' hmem) fun q hq => hframe q ?_
      exact List.mem_flatMap.mpr ⟨l', hl', hq⟩
  · exact (ArenaCells.live_set_perm hl (l.1, cs)).symm

/-- The state of one list. -/
theorem get (h : ArenaInv arena lists) (hl : lists[i]? = some l) :
    arena.alloc.HoldsList l.1 l.2 ∧
      AllocatorInv arena.alloc (addresses l.1 l.2 ++ ArenaCells.live (lists.eraseIdx i)) :=
  ⟨h.held l (List.mem_of_getElem? hl), h.inv.perm (ArenaCells.live_perm hl)⟩

theorem runOp_construct (h : ArenaInv arena lists) :
    ∃ arena', arena.runOp fuel .construct = .ok arena' ∧
      arena'.alloc.buffers.length ≤ arena.alloc.buffers.length + 1 ∧
      (arena'.alloc.buffers.length < 2 ^ 32 →
        ∃ lists', ArenaInv arena' lists' ∧ ArenaCells.values lists' = lists.values ++ [[]]) := by
  obtain ⟨list, n, alloc, hnew, hhead, hframe, hlist, hle, hinv⟩ :=
    BufferedForwardList.new_spec h.inv
  refine ⟨⟨alloc, arena.lists ++ [list]⟩, ?_, hle, fun hfew =>
    ⟨lists ++ [(n, [])], ⟨?_, fun l hl => ?_, ?_⟩, ?_⟩⟩
  · rw [Arena.runOp, hnew]
    rfl
  · rw [List.map_append, List.map_append, h.heads, List.map_singleton, List.map_singleton, hhead]
  · rcases List.mem_append.mp hl with hl | hl
    · refine BufferedForwardList.holdsList_congr (h.held l hl) fun q hq => hframe q ?_
      exact List.mem_flatMap.mpr ⟨l, hl, hq⟩
    · cases List.mem_singleton.mp hl
      exact hlist
  · have hlive : ArenaCells.live (lists ++ [(n, [])]) = lists.live ++ [n] := List.flatMap_append
    rw [hlive]
    exact (hinv hfew).perm (List.perm_append_singleton n _).symm
  · rw [ArenaCells.values, List.map_append]
    rfl

theorem runOp_clear (h : ArenaInv arena lists) (hvs : lists.values[i]? = some vs)
    (hfuel : vs.length ≤ fuel) :
    ∃ arena', arena.runOp fuel (.clear i) = .ok arena' ∧
      arena'.alloc.buffers.length = arena.alloc.buffers.length ∧
      ∃ lists', ArenaInv arena' lists' ∧ ArenaCells.values lists' = lists.values.set i [] := by
  obtain ⟨l, hl, rfl⟩ := ArenaCells.getElem?_values hvs
  rw [List.length_map] at hfuel
  obtain ⟨list, hget, hhead⟩ := h.head hl
  obtain ⟨hlist, hinv⟩ := h.get hl
  obtain ⟨alloc, hclear, hframe, hlist', hinv', hlen⟩ :=
    BufferedForwardList.clear_spec hinv hlist hhead hfuel
  refine ⟨⟨alloc, arena.lists⟩, ?_, hlen, lists.set i (l.1, []), h.set hl hframe hlist' hinv',
    ArenaCells.values_set⟩
  rw [Arena.runOp, hget]
  dsimp only
  rw [hclear]
  rfl

theorem runOp_insertAfter (h : ArenaInv arena lists) (hvs : lists.values[i]? = some vs)
    (hp : p ≤ vs.length) (val : UInt16) :
    ∃ arena', arena.runOp fuel (.insertAfter i p val) = .ok arena' ∧
      arena'.alloc.buffers.length ≤ arena.alloc.buffers.length + 1 ∧
      (arena'.alloc.buffers.length < 2 ^ 32 → ∃ lists', ArenaInv arena' lists' ∧
        ArenaCells.values lists' = lists.values.set i (vs.insertIdx p val)) := by
  obtain ⟨l, hl, rfl⟩ := ArenaCells.getElem?_values hvs
  obtain ⟨list, hget, hhead⟩ := h.head hl
  obtain ⟨hlist, hinv⟩ := h.get hl
  obtain ⟨c, hc⟩ : ∃ c, (addresses l.1 l.2)[p]? = some c := by
    refine ⟨_, List.getElem?_eq_getElem ?_⟩
    rw [List.length_map] at hp
    rw [addresses, List.length_cons, List.length_map]
    omega
  obtain ⟨n, alloc, hinsert, hframe, hlist', hle, hinv'⟩ :=
    BufferedForwardList.insertAfter_spec hinv hlist hc val
  refine ⟨⟨alloc, arena.lists⟩, ?_, hle, fun hfew => ⟨lists.set i (l.1, l.2.insertIdx p (n, val)),
    h.set hl hframe hlist' (hinv' hfew), ?_⟩⟩
  · rw [Arena.runOp, hget]
    dsimp only
    rw [BufferedForwardList.iteratorAt_spec hinv hlist hhead hc, ok_bind, hinsert]
    rfl
  · rw [ArenaCells.values_set, List.map_insertIdx]

theorem runOp_eraseAfter (h : ArenaInv arena lists) (hvs : lists.values[i]? = some vs)
    (hp : p < vs.length) :
    ∃ arena', arena.runOp fuel (.eraseAfter i p) = .ok arena' ∧
      arena'.alloc.buffers.length = arena.alloc.buffers.length ∧
      ∃ lists', ArenaInv arena' lists' ∧
        ArenaCells.values lists' = lists.values.set i (vs.eraseIdx p) := by
  obtain ⟨l, hl, rfl⟩ := ArenaCells.getElem?_values hvs
  rw [List.length_map] at hp
  obtain ⟨list, hget, hhead⟩ := h.head hl
  obtain ⟨hlist, hinv⟩ := h.get hl
  obtain ⟨c, hc⟩ : ∃ c, (addresses l.1 l.2)[p]? = some c := by
    refine ⟨_, List.getElem?_eq_getElem ?_⟩
    rw [addresses, List.length_cons, List.length_map]
    omega
  obtain ⟨alloc, herase, hframe, hlist', hinv', hlen⟩ :=
    BufferedForwardList.eraseAfter_spec hinv hlist hc (List.getElem?_eq_getElem hp)
  refine ⟨⟨alloc, arena.lists⟩, ?_, hlen, lists.set i (l.1, l.2.eraseIdx p),
    h.set hl hframe hlist' hinv', ?_⟩
  · rw [Arena.runOp, hget]
    dsimp only
    rw [BufferedForwardList.iteratorAt_spec hinv hlist hhead hc, ok_bind, herase]
    rfl
  · rw [ArenaCells.values_set, List.eraseIdx_map]

/-- An operation does to the lists what it does to lists of values. -/
theorem runOp {op : ListOp} {values : List (List UInt16)} (h : ArenaInv arena lists)
    (hop : applyOp lists.values op = some values) (hfuel : ∀ vs ∈ lists.values, vs.length ≤ fuel) :
    ∃ arena', arena.runOp fuel op = .ok arena' ∧
      arena'.alloc.buffers.length ≤ arena.alloc.buffers.length + 1 ∧
      (arena'.alloc.buffers.length < 2 ^ 32 →
        ∃ lists', ArenaInv arena' lists' ∧ ArenaCells.values lists' = values) := by
  cases op with
  | construct =>
    cases hop
    exact h.runOp_construct
  | clear i =>
    rw [applyOp] at hop
    split at hop
    · rename_i hi
      cases hop
      have hvs := List.getElem?_eq_getElem hi
      obtain ⟨arena', hrun, hlen, hlists⟩ := h.runOp_clear hvs (hfuel _ (List.mem_of_getElem? hvs))
      exact ⟨arena', hrun, by omega, fun _ => hlists⟩
    · cases hop
  | insertAfter i p value =>
    obtain ⟨vs, hvs, hop⟩ := Option.bind_eq_some_iff.mp hop
    split at hop
    · rename_i hp
      cases hop
      exact h.runOp_insertAfter hvs hp value
    · cases hop
  | eraseAfter i p =>
    obtain ⟨vs, hvs, hop⟩ := Option.bind_eq_some_iff.mp hop
    split at hop
    · rename_i hp
      cases hop
      obtain ⟨arena', hrun, hlen, hlists⟩ := h.runOp_eraseAfter hvs hp
      exact ⟨arena', hrun, by omega, fun _ => hlists⟩
    · cases hop

end ArenaInv

/-! ### Runs of operations -/

section Runs

variable {ops : List ListOp} {op : ListOp} {values values' : List (List UInt16)} {fuel n : Nat}

theorem applyOps_append : applyOps (ops ++ [op]) = some values' ↔
    ∃ values, applyOps ops = some values ∧ applyOp values op = some values' := by
  rw [applyOps, List.foldlM_append, Option.bind_eq_bind, Option.bind_eq_some_iff]
  simp only [List.foldlM_cons, List.foldlM_nil, Option.bind_eq_bind, Option.pure_def,
    Option.bind_fun_some, applyOps]

theorem runOps_append {arena' : Arena} : Arena.runOps fuel (ops ++ [op]) = .ok arena' ↔
    ∃ arena, Arena.runOps fuel ops = .ok arena ∧ arena.runOp fuel op = .ok arena' := by
  rw [Arena.runOps, List.foldlM_append, bind_eq_ok]
  simp only [List.foldlM_cons, List.foldlM_nil, bind_pure, Arena.runOps]

/-- Every operation adds at most one element. -/
theorem applyOp_length_le (h : applyOp values op = some values')
    (hn : ∀ vs ∈ values, vs.length ≤ n) :
    ∀ vs ∈ values', vs.length ≤ n + 1 := by
  intro vs hvs
  cases op with
  | construct =>
    cases h
    rcases List.mem_append.mp hvs with hvs | hvs
    · exact Nat.le_succ_of_le (hn vs hvs)
    · cases List.mem_singleton.mp hvs
      exact Nat.zero_le _
  | clear i =>
    rw [applyOp] at h
    split at h
    · cases h
      rcases List.mem_or_eq_of_mem_set hvs with hvs | rfl
      · exact Nat.le_succ_of_le (hn vs hvs)
      · exact Nat.zero_le _
    · cases h
  | insertAfter i p value =>
    obtain ⟨l, hl, h⟩ := Option.bind_eq_some_iff.mp h
    split at h
    · rename_i hp
      cases h
      rcases List.mem_or_eq_of_mem_set hvs with hvs | rfl
      · exact Nat.le_succ_of_le (hn vs hvs)
      · rw [List.length_insertIdx_of_le_length hp]
        exact Nat.succ_le_succ (hn l (List.mem_of_getElem? hl))
    · cases h
  | eraseAfter i p =>
    obtain ⟨l, hl, h⟩ := Option.bind_eq_some_iff.mp h
    split at h
    · cases h
      rcases List.mem_or_eq_of_mem_set hvs with hvs | rfl
      · exact Nat.le_succ_of_le (hn vs hvs)
      · exact Nat.le_succ_of_le
          (Nat.le_trans (List.length_eraseIdx_le l p) (hn l (List.mem_of_getElem? hl)))
    · cases h

theorem applyOps_length_le (h : applyOps ops = some values) :
    ∀ vs ∈ values, vs.length ≤ ops.length := by
  induction ops using List.reverseRecOn generalizing values with
  | nil =>
    cases h
    exact nofun
  | append_singleton ops op ih =>
    obtain ⟨values₀, hops, hop⟩ := applyOps_append.mp h
    rw [List.length_append, List.length_singleton]
    exact applyOp_length_le hop (ih hops)

/-- As long as the numbers of the rows fit, the arena has the lists. -/
theorem runOps_inv (hops : applyOps ops = some values) (hfuel : ops.length ≤ fuel)
    (hrows : ∀ done arena, done <+: ops → Arena.runOps fuel done = .ok arena →
      arena.alloc.buffers.length < 2 ^ 32) :
    ∃ arena lists, Arena.runOps fuel ops = .ok arena ∧
      arena.alloc.buffers.length ≤ ops.length + 1 ∧ ArenaInv arena lists ∧
      lists.values = values := by
  induction ops using List.reverseRecOn generalizing values with
  | nil =>
    cases hops
    exact ⟨.new, [], rfl, Nat.le_refl 1, .new, rfl⟩
  | append_singleton ops op ih =>
    obtain ⟨values₀, hops, hop⟩ := applyOps_append.mp hops
    rw [List.length_append, List.length_singleton] at *
    obtain ⟨arena, lists, hrun, hle, hinv, rfl⟩ := ih hops (by omega)
      fun done arena hdone => hrows done arena (hdone.trans (List.prefix_append ops [op]))
    have hlengths : ∀ vs ∈ lists.values, vs.length ≤ fuel := fun vs hvs => by
      have hlt := applyOps_length_le hops vs hvs
      omega
    obtain ⟨arena', hstep, hle', hlists⟩ := hinv.runOp hop hlengths
    have hrun' := runOps_append.mpr ⟨arena, hrun, hstep⟩
    obtain ⟨lists', hinv', hvalues⟩ := hlists (hrows _ arena' (List.prefix_refl _) hrun')
    exact ⟨arena', lists', hrun', by omega, hinv', hvalues⟩

/-- A run of few operations has few rows. -/
theorem rows_of_few_ops (hops : applyOps ops = some values) (hfuel : ops.length ≤ fuel)
    (hfew : ops.length + 1 < 2 ^ 32) (done : List ListOp) (arena : Arena) (hdone : done <+: ops)
    (hrun : Arena.runOps fuel done = .ok arena) : arena.alloc.buffers.length < 2 ^ 32 := by
  induction ops using List.reverseRecOn generalizing values done arena with
  | nil =>
    cases List.prefix_nil.mp hdone
    cases hrun
    decide
  | append_singleton ops op ih =>
    obtain ⟨values₀, hops, hop⟩ := applyOps_append.mp hops
    rw [List.length_append, List.length_singleton] at hfuel hfew
    have hrows := ih hops (by omega) (by omega)
    rcases List.prefix_concat_iff.mp hdone with rfl | hdone
    · obtain ⟨arena₀, lists, hrun₀, hle, hinv, rfl⟩ := runOps_inv hops (by omega) hrows
      have hlengths : ∀ vs ∈ lists.values, vs.length ≤ fuel := fun vs hvs => by
        have hlt := applyOps_length_le hops vs hvs
        omega
      obtain ⟨arena', hstep, hle', -⟩ := hinv.runOp hop hlengths
      cases hrun.symm.trans (runOps_append.mpr ⟨arena₀, hrun₀, hstep⟩)
      omega
    · exact hrows done arena hdone hrun

end Runs

theorem ArenaInv.length_eq {arena : Arena} {lists : ArenaCells} (h : ArenaInv arena lists) :
    arena.lists.length = lists.length := by
  simpa using congrArg List.length h.heads

theorem ArenaInv.list_spec {arena : Arena} {lists : ArenaCells} {list : BufferedForwardList}
    {i fuel : Nat} (h : ArenaInv arena lists) (hlist : arena.lists[i]? = some list)
    (hfuel : ∀ vs ∈ lists.values, vs.length ≤ fuel) :
    ∃ l, lists[i]? = some l ∧ list.beforeBegin arena.alloc = .ok (some l.1) ∧
      list.cells fuel arena.alloc = .ok l.2 := by
  obtain ⟨hi, -⟩ := List.getElem?_eq_some_iff.mp hlist
  rw [h.length_eq] at hi
  obtain ⟨l, hl⟩ : ∃ l, lists[i]? = some l := ⟨_, List.getElem?_eq_getElem hi⟩
  obtain ⟨list', hlist', hhead⟩ := h.head hl
  cases hlist.symm.trans hlist'
  obtain ⟨hholds, hinv⟩ := h.get hl
  have hlength : l.2.length ≤ fuel := by
    have hmem : l.2.map Prod.snd ∈ lists.values := List.mem_map_of_mem (List.mem_of_getElem? hl)
    have hle := hfuel _ hmem
    rwa [List.length_map] at hle
  exact ⟨l, hl, Allocator.get_of_some hhead (hinv.inRow l.1 List.mem_cons_self),
    BufferedForwardList.cells_spec hinv hholds hhead hlength⟩

theorem ArenaInv.values_spec {arena : Arena} {lists : ArenaCells} {fuel : Nat}
    (h : ArenaInv arena lists) (hfuel : ∀ vs ∈ lists.values, vs.length ≤ fuel) :
    arena.lists.mapM (fun list => list.values fuel arena.alloc) = .ok lists.values := by
  apply mapM_of_getElem?
  · rw [h.length_eq, ArenaCells.values, List.length_map]
  · intro i list hlist
    obtain ⟨l, hl, -, hcells⟩ := h.list_spec hlist hfuel
    refine ⟨l.2.map Prod.snd, ?_, ?_⟩
    · rw [ArenaCells.values, List.getElem?_map, hl]
      rfl
    · rw [BufferedForwardList.values, hcells]
      rfl

/-- The lists in an allocator are lists of values, and the allocator hands out none of their cells.
There are fewer than 2^32 rows throughout: so many would take 2 PiB. -/
theorem arena_holds_lists {ops : List ListOp} {values : List (List UInt16)} {fuel : Nat}
    (hops : applyOps ops = some values) (hfuel : ops.length ≤ fuel)
    (hrows : ∀ done arena, done <+: ops → Arena.runOps fuel done = .ok arena →
      arena.alloc.buffers.length < 2 ^ 32) :
    ∃ arena, Arena.runOps fuel ops = .ok arena ∧
      arena.lists.mapM (fun list => list.values fuel arena.alloc) = .ok values ∧
      ∃ addr p alloc, arena.alloc.allocate = .ok (addr, alloc) ∧ alloc.get addr = .ok (some p) ∧
        ∀ list ∈ arena.lists, ∃ head cells, list.beforeBegin arena.alloc = .ok (some head) ∧
          list.cells fuel arena.alloc = .ok cells ∧ p ≠ head ∧ p ∉ cells.map Prod.fst := by
  obtain ⟨arena, lists, hrun, -, hinv, rfl⟩ := runOps_inv hops hfuel hrows
  have hlengths : ∀ vs ∈ lists.values, vs.length ≤ fuel := fun vs hvs =>
    Nat.le_trans (applyOps_length_le hops vs hvs) hfuel
  obtain ⟨addr, p, alloc, halloc, haddr, hfresh, hp, -⟩ := Allocator.allocate_spec hinv.inv
  refine ⟨arena, hrun, hinv.values_spec hlengths, addr, p, alloc, halloc,
    Allocator.get_of_some haddr hp, fun list hlist => ?_⟩
  obtain ⟨i, hi⟩ := List.getElem?_of_mem hlist
  obtain ⟨l, hl, hhead, hcells⟩ := hinv.list_spec hi hlengths
  have hlive : ∀ q ∈ addresses l.1 l.2, p ≠ q := by
    rintro q hq rfl
    exact hfresh (List.mem_flatMap.mpr ⟨l, List.mem_of_getElem? hl, hq⟩)
  refine ⟨l.1, l.2, hhead, hcells, hlive l.1 List.mem_cons_self, fun hin => ?_⟩
  exact hlive p (List.mem_cons_of_mem l.1 hin) rfl

/-- Two lists, one of which is cleared. -/
theorem arena_holds_lists_two :
    ∃ arena, Arena.runOps 6 [.construct, .insertAfter 0 0 7, .construct, .insertAfter 1 0 8,
        .insertAfter 0 1 9, .clear 1] = .ok arena ∧
      arena.lists.mapM (fun list => list.values 6 arena.alloc) = .ok [[7, 9], []] ∧
      ∃ addr p alloc, arena.alloc.allocate = .ok (addr, alloc) ∧ alloc.get addr = .ok (some p) ∧
        ∀ list ∈ arena.lists, ∃ head cells, list.beforeBegin arena.alloc = .ok (some head) ∧
          list.cells 6 arena.alloc = .ok cells ∧ p ≠ head ∧ p ∉ cells.map Prod.fst :=
  arena_holds_lists (by decide) (by decide)
    (@rows_of_few_ops _ [[7, 9], []] _ (by decide) (by decide) (by decide))

end Speedex
