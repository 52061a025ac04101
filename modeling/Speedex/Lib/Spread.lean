import Speedex.Lib.SortedMap

/-! The values of a map, spread over the indices of their keys and added up. -/

namespace Lib

namespace SortedMap

variable {K V I G : Type} [DecidableEq I] [AddCommGroup G]

/-- The sum of `f v` at index `ι k` over the entries `(k, v)`. -/
def spreadList (ι : K → I) (f : V → G) (l : List (K × V)) : I → G :=
  (l.map fun a => Pi.single (ι a.1) (f a.2)).sum

variable {ι : K → I} {f : V → G}

@[simp] theorem spreadList_nil : spreadList ι f [] = 0 := rfl

@[simp] theorem spreadList_cons (a : K × V) (l : List (K × V)) :
    spreadList ι f (a :: l) = Pi.single (ι a.1) (f a.2) + spreadList ι f l := by
  simp [spreadList]

variable [LinearOrder K]

def spread (ι : K → I) (f : V → G) (m : SortedMap K V) : I → G := spreadList ι f m.entries

@[simp] theorem spread_empty : spread ι f (∅ : SortedMap K V) = 0 := rfl

theorem lookup_eq_none_of_lt {k : K} {l : List (K × V)} (h : ∀ a ∈ l, k < a.1) :
    lookup k l = none := by
  induction l with
  | nil => rfl
  | cons a l ih =>
    rw [lookup, if_neg (ne_of_gt (h a List.mem_cons_self))]
    exact ih fun b hb => h b (List.mem_cons_of_mem _ hb)

theorem spreadList_insertEntry {k : K} {v : V} {l : List (K × V)}
    (hs : l.Pairwise fun a b => a.1 < b.1) :
    spreadList ι f (insertEntry k v l) =
      spreadList ι f l + Pi.single (ι k) (f v - ((lookup k l).map f).getD 0) := by
  induction l with
  | nil => simp [insertEntry, lookup]
  | cons a l ih =>
    obtain ⟨hfirst, hrest⟩ := List.pairwise_cons.mp hs
    rw [insertEntry]
    by_cases hlt : k < a.1
    · have hnone : lookup k (a :: l) = none := by
        refine lookup_eq_none_of_lt fun b hb => ?_
        rcases List.mem_cons.mp hb with rfl | hb
        · exact hlt
        · exact hlt.trans (hfirst b hb)
      simp [hlt, hnone, add_comm]
    · by_cases heq : a.1 = k
      · subst heq
        simp only [lt_self_iff_false, if_false, if_true, spreadList_cons, lookup, Option.map_some,
          Option.getD_some, Pi.single_sub]
        abel
      · simp only [hlt, heq, if_false, spreadList_cons, lookup, ih hrest]
        abel

theorem spread_insert (m : SortedMap K V) (k : K) (v : V) :
    spread ι f (m.insert k v) =
      spread ι f m + Pi.single (ι k) (f v - ((m.find? k).map f).getD 0) :=
  spreadList_insertEntry m.sorted

theorem spreadList_apply (hι : Function.Injective ι) {l : List (K × V)}
    (hs : l.Pairwise fun a b => a.1 < b.1) (k : K) :
    spreadList ι f l (ι k) = ((lookup k l).map f).getD 0 := by
  induction l with
  | nil => rfl
  | cons a l ih =>
    obtain ⟨hfirst, hrest⟩ := List.pairwise_cons.mp hs
    rw [spreadList_cons, Pi.add_apply, ih hrest, lookup]
    by_cases hk : a.1 = k
    · subst hk
      simp [lookup_eq_none_of_lt hfirst]
    · have hne : ι k ≠ ι a.1 := fun h => hk (hι h).symm
      simp [hk, Pi.single_eq_of_ne hne]

theorem spread_apply (hι : Function.Injective ι) (m : SortedMap K V) (k : K) :
    spread ι f m (ι k) = ((m.find? k).map f).getD 0 :=
  spreadList_apply hι m.sorted k

end SortedMap

end Lib
