import Mathlib

/-! Singly linked cells in a memory: each cell has a value and the address of the next cell, if
there is one. -/

namespace Lib

variable {A V : Type} {next next' : A → Option A} {value value' : A → V} {a c n : A} {v : V}
  {cs : List (A × V)} {p : Nat}

/-- The cells `cs` are linked one after the other to the cell at `a`. -/
def Linked (next : A → Option A) (value : A → V) : A → List (A × V) → Prop
  | a, [] => next a = none
  | a, c :: cs => next a = some c.1 ∧ value c.1 = c.2 ∧ Linked next value c.1 cs

/-- The addresses of a list whose head is the cell at `a`. -/
def addresses (a : A) (cs : List (A × V)) : List A := a :: cs.map Prod.fst

/-- Other cells can change. -/
theorem Linked.congr (h : Linked next value a cs)
    (hnext : ∀ x ∈ addresses a cs, next' x = next x)
    (hvalue : ∀ x ∈ cs.map Prod.fst, value' x = value x) : Linked next' value' a cs := by
  induction cs generalizing a with
  | nil => exact (hnext a List.mem_cons_self).trans h
  | cons c cs ih =>
    obtain ⟨hlink, hval, hrest⟩ := h
    refine ⟨(hnext a List.mem_cons_self).trans hlink,
      (hvalue c.1 List.mem_cons_self).trans hval, ih hrest (fun x hx => ?_) fun x hx => ?_⟩
    · exact hnext x (List.mem_cons_of_mem a hx)
    · exact hvalue x (List.mem_cons_of_mem c.1 hx)

/-- Each cell has the address of the next. -/
theorem Linked.next_eq (h : Linked next value a cs) (hc : (addresses a cs)[p]? = some c) :
    next c = (cs[p]?).map Prod.fst := by
  induction cs generalizing a p with
  | nil =>
    cases p with
    | zero =>
      cases hc
      exact h
    | succ p => cases hc
  | cons c' cs ih =>
    cases p with
    | zero =>
      cases hc
      exact h.1
    | succ p => exact ih h.2.2 hc

/-- A new cell `n` is linked in after cell `c`. -/
theorem Linked.insertIdx (h : Linked next value a cs) (hc : (addresses a cs)[p]? = some c)
    (hnodup : (addresses a cs).Nodup) (hn : n ∉ addresses a cs) (hnew : next' n = next c)
    (hlink : next' c = some n) (hnext : ∀ x ∈ addresses a cs, x ≠ c → next' x = next x)
    (hval : value' n = v) (hvalue : ∀ x ∈ cs.map Prod.fst, value' x = value x) :
    Linked next' value' a (cs.insertIdx p (n, v)) := by
  induction cs generalizing a p with
  | nil =>
    cases p with
    | zero =>
      cases hc
      exact ⟨hlink, hval, hnew.trans h⟩
    | succ p => cases hc
  | cons c' cs ih =>
    obtain ⟨hlink', hval', hrest⟩ := h
    obtain ⟨ha, hnodup⟩ := List.nodup_cons.mp hnodup
    cases p with
    | zero =>
      cases hc
      refine ⟨hlink, hval, hnew.trans hlink', (hvalue c'.1 List.mem_cons_self).trans hval', ?_⟩
      refine hrest.congr (fun x hx => ?_) fun x hx => hvalue x (List.mem_cons_of_mem c'.1 hx)
      exact hnext x (List.mem_cons_of_mem _ hx) fun heq => ha (heq ▸ hx)
    | succ p =>
      have hmem : c ∈ addresses c'.1 cs := List.mem_of_getElem? hc
      refine ⟨(hnext a List.mem_cons_self fun heq => ha (heq ▸ hmem)).trans hlink',
        (hvalue c'.1 List.mem_cons_self).trans hval', ih hrest hc hnodup ?_ ?_ ?_⟩
      · exact fun hin => hn (List.mem_cons_of_mem a hin)
      · exact fun x hx => hnext x (List.mem_cons_of_mem a hx)
      · exact fun x hx => hvalue x (List.mem_cons_of_mem c'.1 hx)

/-- The cell after cell `c` is left out. -/
theorem Linked.eraseIdx (h : Linked next value a cs) (hc : (addresses a cs)[p]? = some c)
    {d : A × V} (hd : cs[p]? = some d) (hnodup : (addresses a cs).Nodup)
    (hlink : next' c = next d.1) (hnext : ∀ x ∈ addresses a cs, x ≠ c → next' x = next x)
    (hvalue : ∀ x ∈ cs.map Prod.fst, value' x = value x) :
    Linked next' value' a (cs.eraseIdx p) := by
  induction cs generalizing a p with
  | nil => cases hd
  | cons c' cs ih =>
    obtain ⟨hlink', hval', hrest⟩ := h
    obtain ⟨ha, hnodup⟩ := List.nodup_cons.mp hnodup
    cases p with
    | zero =>
      cases hc
      cases hd
      cases cs with
      | nil => exact hlink.trans hrest
      | cons c'' cs =>
        obtain ⟨hlink'', hval'', hrest⟩ := hrest
        refine ⟨hlink.trans hlink'',
          (hvalue c''.1 (List.mem_cons_of_mem _ List.mem_cons_self)).trans hval'', ?_⟩
        refine hrest.congr (fun x hx => ?_) fun x hx => ?_
        · have hx' : x ∈ addresses d.1 (c'' :: cs) := List.mem_cons_of_mem d.1 hx
          exact hnext x (List.mem_cons_of_mem _ hx') fun heq => ha (heq ▸ hx')
        · exact hvalue x (List.mem_cons_of_mem _ (List.mem_cons_of_mem _ hx))
    | succ p =>
      have hmem : c ∈ addresses c'.1 cs := List.mem_of_getElem? hc
      refine ⟨(hnext a List.mem_cons_self fun heq => ha (heq ▸ hmem)).trans hlink',
        (hvalue c'.1 List.mem_cons_self).trans hval', ih hrest hc hd hnodup ?_ ?_⟩
      · exact fun x hx => hnext x (List.mem_cons_of_mem a hx)
      · exact fun x hx => hvalue x (List.mem_cons_of_mem c'.1 hx)

/-- The cells before a cell that is left out stay where they are. -/
theorem getElem?_addresses_eraseIdx (a : A) (cs : List (A × V)) (p : Nat) :
    (addresses a (cs.eraseIdx p))[p]? = (addresses a cs)[p]? := by
  cases p with
  | zero => rfl
  | succ p =>
    rw [addresses, addresses, List.getElem?_cons_succ, List.getElem?_cons_succ, List.getElem?_map,
      List.getElem?_map, List.getElem?_eraseIdx_of_lt (Nat.lt_succ_self p)]

theorem addresses_insertIdx_perm (a n : A) (v : V) (hp : p ≤ cs.length) :
    (addresses a (cs.insertIdx p (n, v))).Perm (n :: addresses a cs) := by
  have hperm : ((cs.insertIdx p (n, v)).map Prod.fst).Perm (n :: cs.map Prod.fst) :=
    (List.perm_insertIdx (n, v) cs hp).map Prod.fst
  exact (hperm.cons a).trans (List.Perm.swap n a _)

theorem addresses_eraseIdx_perm (a : A) {d : A × V} (hd : cs[p]? = some d) :
    (addresses a cs).Perm (d.1 :: addresses a (cs.eraseIdx p)) := by
  obtain ⟨hp, rfl⟩ := List.getElem?_eq_some_iff.mp hd
  have hperm : (cs.map Prod.fst).Perm (cs[p].1 :: (cs.eraseIdx p).map Prod.fst) :=
    (List.getElem_cons_eraseIdx_perm hp).symm.map Prod.fst
  exact (hperm.cons a).trans (List.Perm.swap _ a _)

end Lib
