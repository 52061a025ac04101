import Mathlib

/-! Finite maps over a linear order, kept as a list of entries with strictly increasing keys.  Two
maps are equal exactly when they agree at every key, so the operations are specified by what they
do to `find?`. -/

namespace Lib

/-- A finite map: entries with strictly increasing keys. -/
structure SortedMap (K V : Type) [LinearOrder K] where
  entries : List (K × V)
  sorted : entries.Pairwise fun a b => a.1 < b.1

namespace SortedMap

variable {K V W : Type} [LinearOrder K]

instance [DecidableEq V] : DecidableEq (SortedMap K V) := fun a b =>
  decidable_of_iff (a.entries = b.entries) ⟨fun h => by cases a; cases b; simp_all, fun h => h ▸ rfl⟩

/-- The value that a list of entries holds under `k`. -/
def lookup (k : K) : List (K × V) → Option V
  | [] => none
  | a :: l => if a.1 = k then some a.2 else lookup k l

/-- The value under `k`. -/
def find? (m : SortedMap K V) (k : K) : Option V := lookup k m.entries

/-- `k` has a value. -/
def contains (m : SortedMap K V) (k : K) : Bool := (m.find? k).isSome

def empty : SortedMap K V := ⟨[], .nil⟩

instance : EmptyCollection (SortedMap K V) := ⟨empty⟩
instance : Inhabited (SortedMap K V) := ⟨empty⟩

/-- The number of entries. -/
def size (m : SortedMap K V) : Nat := m.entries.length

def keys (m : SortedMap K V) : List K := m.entries.map (·.1)

/-- The values, in the order of their keys. -/
def values (m : SortedMap K V) : List V := m.entries.map (·.2)

theorem mem_of_lookup {k : K} {v : V} {l : List (K × V)} (h : lookup k l = some v) :
    (k, v) ∈ l := by
  induction l with
  | nil => cases h
  | cons a l ih =>
    rw [lookup] at h
    split at h
    · rename_i hk
      obtain rfl := Option.some.inj h
      rw [← hk]
      exact List.mem_cons_self
    · exact List.mem_cons_of_mem _ (ih h)

/-- Where no key occurs twice, a list is searched for its members. -/
theorem lookup_eq_some {k : K} {v : V} {l : List (K × V)} (hd : (l.map (·.1)).Nodup) :
    lookup k l = some v ↔ (k, v) ∈ l := by
  refine ⟨mem_of_lookup, fun h => ?_⟩
  induction l with
  | nil => cases h
  | cons a l ih =>
    rw [List.map_cons, List.nodup_cons] at hd
    rw [lookup]
    rcases List.mem_cons.mp h with rfl | h
    · exact if_pos rfl
    · have hne : a.1 ≠ k := fun hk => hd.1 (hk ▸ List.mem_map_of_mem (f := Prod.fst) h)
      rw [if_neg hne]
      exact ih hd.2 h

theorem lookup_of_mem {k : K} {v : V} {l : List (K × V)}
    (hs : l.Pairwise fun a b => a.1 < b.1) (h : (k, v) ∈ l) : lookup k l = some v :=
  (lookup_eq_some ((List.pairwise_map.mpr hs).imp ne_of_lt)).mpr h

/-- The entries of a map are the pairs that `find?` answers with. -/
theorem mem_entries {m : SortedMap K V} {k : K} {v : V} :
    (k, v) ∈ m.entries ↔ m.find? k = some v :=
  ⟨lookup_of_mem m.sorted, mem_of_lookup⟩

theorem mem_keys {m : SortedMap K V} {k : K} : k ∈ m.keys ↔ m.contains k = true := by
  simp only [keys, List.mem_map, Prod.exists, exists_and_right, exists_eq_right, mem_entries,
    contains, Option.isSome_iff_exists]

theorem nodup_keys (m : SortedMap K V) : m.keys.Nodup :=
  (List.pairwise_map.mpr m.sorted).imp ne_of_lt

theorem nodup_entries (m : SortedMap K V) : m.entries.Nodup :=
  m.sorted.imp fun h he => absurd (congrArg Prod.fst he) (ne_of_lt h)

/-- Maps that agree at every key are equal. -/
theorem ext_find {m m' : SortedMap K V} (h : ∀ k, m.find? k = m'.find? k) : m = m' := by
  have hp : m.entries.Perm m'.entries :=
    (List.perm_ext_iff_of_nodup m.nodup_entries m'.nodup_entries).mpr fun a => by
      rw [mem_entries, mem_entries, h]
  have he : m.entries = m'.entries :=
    hp.eq_of_pairwise (fun a b _ _ hab hba => absurd hab (lt_asymm hba)) m.sorted m'.sorted
  cases m; cases m'; simp_all

/-- What is said of every entry is checked entry by entry. -/
instance {m : SortedMap K V} {P : K → V → Prop} [∀ k v, Decidable (P k v)] :
    Decidable (∀ k v, m.find? k = some v → P k v) :=
  decidable_of_iff (∀ a ∈ m.entries, P a.1 a.2)
    ⟨fun h k v hk => h (k, v) (mem_entries.mpr hk), fun h a ha => h a.1 a.2 (mem_entries.mp ha)⟩

@[simp] theorem find?_empty (k : K) : (∅ : SortedMap K V).find? k = none := rfl

/-! ### Insertion and removal of one key -/

/-- The entries with `v` under `k`, in place of what was there. -/
def insertEntry (k : K) (v : V) : List (K × V) → List (K × V)
  | [] => [(k, v)]
  | a :: l =>
    if k < a.1 then (k, v) :: a :: l
    else if a.1 = k then (k, v) :: l
    else a :: insertEntry k v l

theorem mem_insertEntry {k : K} {v : V} {l : List (K × V)} {b : K × V}
    (h : b ∈ insertEntry k v l) : b = (k, v) ∨ b ∈ l := by
  induction l with
  | nil => exact .inl (List.mem_singleton.mp h)
  | cons a l ih =>
    rw [insertEntry] at h
    split at h
    · exact List.mem_cons.mp h
    split at h
    · exact (List.mem_cons.mp h).imp_right (List.mem_cons_of_mem _)
    rcases List.mem_cons.mp h with rfl | h
    · exact .inr List.mem_cons_self
    · exact (ih h).imp_right (List.mem_cons_of_mem _)

theorem insertEntry_sorted {k : K} {v : V} {l : List (K × V)}
    (hs : l.Pairwise fun a b => a.1 < b.1) :
    (insertEntry k v l).Pairwise fun a b => a.1 < b.1 := by
  induction l with
  | nil => exact List.pairwise_singleton _ _
  | cons a l ih =>
    have hs' := List.pairwise_cons.mp hs
    rw [insertEntry]
    split
    · rename_i hk
      refine List.pairwise_cons.mpr ⟨fun b hb => ?_, hs⟩
      rcases List.mem_cons.mp hb with rfl | hb
      · exact hk
      · exact hk.trans (hs'.1 b hb)
    split
    · rename_i hk
      exact List.pairwise_cons.mpr ⟨fun b hb => hk ▸ hs'.1 b hb, hs'.2⟩
    · rename_i hlt hne
      refine List.pairwise_cons.mpr ⟨fun b hb => ?_, ih hs'.2⟩
      rcases mem_insertEntry hb with rfl | hb
      · exact lt_of_le_of_ne (not_lt.mp hlt) hne
      · exact hs'.1 b hb

theorem lookup_insertEntry {k : K} {v : V} {l : List (K × V)}
    (hs : l.Pairwise fun a b => a.1 < b.1) (k' : K) :
    lookup k' (insertEntry k v l) = if k = k' then some v else lookup k' l := by
  induction l with
  | nil => rfl
  | cons a l ih =>
    have hs' := List.pairwise_cons.mp hs
    rw [insertEntry]
    split
    · rfl
    split
    · rename_i hk
      subst hk
      by_cases h : a.1 = k' <;> simp [lookup, h]
    · rename_i hne
      rw [lookup, ih hs'.2, lookup]
      by_cases h : a.1 = k'
      · rw [if_pos h, if_pos h, if_neg fun hk => hne (h.trans hk.symm)]
      · rw [if_neg h, if_neg h]

/-- The map with `v` under `k`, in place of what was there. -/
def insert (m : SortedMap K V) (k : K) (v : V) : SortedMap K V :=
  ⟨insertEntry k v m.entries, insertEntry_sorted m.sorted⟩

theorem find?_insert (m : SortedMap K V) (k k' : K) (v : V) :
    (m.insert k v).find? k' = if k = k' then some v else m.find? k' :=
  lookup_insertEntry m.sorted k'

theorem mem_insert_entries {m : SortedMap K V} {k : K} {v : V} {a : K × V}
    (h : a ∈ (m.insert k v).entries) : a = (k, v) ∨ a ∈ m.entries := by
  obtain ⟨k', v'⟩ := a
  rw [mem_entries, find?_insert] at h
  split at h
  · rename_i heq
    cases heq
    cases h
    exact .inl rfl
  · exact .inr (mem_entries.mpr h)

@[simp] theorem find?_insert_self (m : SortedMap K V) (k : K) (v : V) :
    (m.insert k v).find? k = some v := by
  rw [find?_insert, if_pos rfl]

theorem find?_insert_ne {k k' : K} (h : k ≠ k') (m : SortedMap K V) (v : V) :
    (m.insert k v).find? k' = m.find? k' := by
  rw [find?_insert, if_neg h]

/-- The entries that satisfy `p`. -/
def filter (m : SortedMap K V) (p : K → V → Bool) : SortedMap K V :=
  ⟨m.entries.filter fun a => p a.1 a.2, m.sorted.filter _⟩

theorem find?_filter (m : SortedMap K V) (p : K → V → Bool) (k : K) :
    (m.filter p).find? k = (m.find? k).filter (p k) := by
  refine Option.ext fun v => ?_
  rw [← mem_entries, Option.filter_eq_some_iff, ← mem_entries]
  exact List.mem_filter

/-- A filter on keys. -/
theorem find?_filter_key (m : SortedMap K V) (P : K → Prop) [DecidablePred P] (k : K) :
    (m.filter fun k _ => decide (P k)).find? k = if P k then m.find? k else none := by
  rw [find?_filter]
  by_cases hk : P k <;> cases m.find? k <;> simp [hk, Option.filter_some]

/-- The map without `k`. -/
def erase (m : SortedMap K V) (k : K) : SortedMap K V := m.filter fun k' _ => decide (k' ≠ k)

theorem find?_erase (m : SortedMap K V) (k k' : K) :
    (m.erase k).find? k' = if k = k' then none else m.find? k' := by
  rw [erase, find?_filter]
  by_cases h : k = k'
  · subst h
    cases m.find? k <;> simp
  · rw [if_neg h]
    cases m.find? k' <;> simp [Ne.symm h]

@[simp] theorem find?_erase_self (m : SortedMap K V) (k : K) : (m.erase k).find? k = none := by
  rw [find?_erase, if_pos rfl]

theorem find?_erase_ne {k k' : K} (h : k ≠ k') (m : SortedMap K V) :
    (m.erase k).find? k' = m.find? k' := by
  rw [find?_erase, if_neg h]

/-- `f` at every value. -/
def map (m : SortedMap K V) (f : K → V → W) : SortedMap K W :=
  ⟨m.entries.map fun a => (a.1, f a.1 a.2), List.pairwise_map.mpr m.sorted⟩

theorem find?_map (m : SortedMap K V) (f : K → V → W) (k : K) :
    (m.map f).find? k = (m.find? k).map (f k) := by
  refine Option.ext fun w => ?_
  rw [← mem_entries, Option.map_eq_some_iff]
  simp only [map, List.mem_map, Prod.mk.injEq, Prod.exists]
  constructor
  · rintro ⟨k', v, hv, rfl, rfl⟩
    exact ⟨v, mem_entries.mp hv, rfl⟩
  · rintro ⟨v, hv, rfl⟩
    exact ⟨k, v, mem_entries.mpr hv, rfl, rfl⟩

/-- `f` at the value under `k`, if there is one. -/
def modify (m : SortedMap K V) (k : K) (f : V → V) : SortedMap K V :=
  m.map fun k' v => if k' = k then f v else v

theorem find?_modify (m : SortedMap K V) (k k' : K) (f : V → V) :
    (m.modify k f).find? k' = if k = k' then (m.find? k').map f else m.find? k' := by
  rw [modify, find?_map]
  by_cases h : k = k'
  · subst h
    simp
  · rw [if_neg h]
    cases m.find? k' <;> simp [Ne.symm h]

/-! ### Several keys at once -/

/-- The map with the entries of `l` inserted, in order. -/
def insertAll (m : SortedMap K V) (l : List (K × V)) : SortedMap K V :=
  l.foldl (fun m a => m.insert a.1 a.2) m

@[simp] theorem insertAll_nil (m : SortedMap K V) : m.insertAll [] = m := rfl

theorem insertAll_cons (m : SortedMap K V) (a : K × V) (l : List (K × V)) :
    m.insertAll (a :: l) = (m.insert a.1 a.2).insertAll l := rfl

theorem insertAll_append (m : SortedMap K V) (l l' : List (K × V)) :
    m.insertAll (l ++ l') = (m.insertAll l).insertAll l' := List.foldl_append

/-- A later entry of `l` replaces an earlier one. -/
theorem find?_insertAll (m : SortedMap K V) (l : List (K × V)) (k : K) :
    (m.insertAll l).find? k = (lookup k l.reverse).or (m.find? k) := by
  induction l generalizing m with
  | nil => rfl
  | cons a l ih =>
    have happ : lookup k (l.reverse ++ [a]) = (lookup k l.reverse).or (lookup k [a]) := by
      generalize l.reverse = r
      induction r with
      | nil => rfl
      | cons b r ih' =>
        rw [List.cons_append, lookup, lookup]
        split
        · rfl
        · exact ih'
    rw [insertAll_cons, ih, find?_insert, List.reverse_cons, happ, Option.or_assoc]
    congr 1
    by_cases h : a.1 = k <;> simp [lookup, h]

theorem lookup_reverse {l : List (K × V)} (hd : (l.map (·.1)).Nodup) (k : K) :
    lookup k l.reverse = lookup k l := by
  have hd' : (l.reverse.map (·.1)).Nodup := by
    rw [List.map_reverse]
    exact List.nodup_reverse.mpr hd
  refine Option.ext fun v => ?_
  rw [lookup_eq_some hd, lookup_eq_some hd']
  exact List.mem_reverse

/-- The map with all entries of `n`, which replace those of `m`. -/
def union (m n : SortedMap K V) : SortedMap K V := m.insertAll n.entries

theorem find?_union (m n : SortedMap K V) (k : K) :
    (m.union n).find? k = (n.find? k).or (m.find? k) := by
  rw [union, find?_insertAll, lookup_reverse n.nodup_keys]
  rfl

/-- Maps without a common key have the sizes of both together. -/
theorem size_union {m n : SortedMap K V} (h : ∀ k, m.find? k ≠ none → n.find? k = none) :
    (m.union n).size = n.size + m.size := by
  have hdisjoint : List.Disjoint n.entries m.entries := by
    rintro ⟨k, v⟩ hn hm
    have hfind := h k (by rw [mem_entries.mp hm]; exact Option.some_ne_none v)
    rw [mem_entries.mp hn] at hfind
    cases hfind
  have hperm : (m.union n).entries.Perm (n.entries ++ m.entries) := by
    refine (List.perm_ext_iff_of_nodup (nodup_entries _)
      (List.nodup_append'.mpr ⟨n.nodup_entries, m.nodup_entries, hdisjoint⟩)).mpr fun a => ?_
    rw [List.mem_append, mem_entries, mem_entries, mem_entries, find?_union, Option.or_eq_some_iff]
    constructor
    · rintro (hn | ⟨-, hm⟩)
      · exact .inl hn
      · exact .inr hm
    · rintro (hn | hm)
      · exact .inl hn
      · exact .inr ⟨h a.1 (by rw [hm]; exact Option.some_ne_none a.2), hm⟩
  rw [size, hperm.length_eq, List.length_append]
  rfl

/-- The map without the keys of `l`. -/
def eraseAll (m : SortedMap K V) (l : List K) : SortedMap K V := l.foldl erase m

theorem find?_eraseAll (m : SortedMap K V) (l : List K) (k : K) :
    (m.eraseAll l).find? k = if k ∈ l then none else m.find? k := by
  induction l generalizing m with
  | nil => rfl
  | cons a l ih =>
    rw [eraseAll, List.foldl_cons]
    refine (ih (m.erase a)).trans ?_
    by_cases hl : k ∈ l
    · simp [hl]
    · by_cases ha : a = k
      · subst ha; simp
      · rw [if_neg hl, find?_erase_ne ha, if_neg (by simp [hl, Ne.symm ha])]

/-! ### The order of the entries -/

/-- The least key with its value. -/
def min? (m : SortedMap K V) : Option (K × V) := m.entries.head?

theorem min?_eq_none {m : SortedMap K V} : m.min? = none ↔ m = ∅ := by
  rw [min?, List.head?_eq_none_iff]
  constructor
  · intro h; cases m; simp_all; rfl
  · rintro rfl; rfl

theorem find?_of_min? {m : SortedMap K V} {k : K} {v : V} (h : m.min? = some (k, v)) :
    m.find? k = some v :=
  mem_entries.mp (List.mem_of_head? h)

/-- Reading the entries from the last to the first, as long as `p` holds, reaches `a` exactly when
`p` holds from `a` on. -/
theorem mem_takeWhile_reverse {l : List (K × V)} (hs : l.Pairwise fun a b => a.1 < b.1)
    {p : K × V → Bool} {a : K × V} :
    a ∈ l.reverse.takeWhile p ↔ a ∈ l ∧ ∀ b ∈ l, a.1 ≤ b.1 → p b = true := by
  induction l using List.reverseRecOn with
  | nil => simp
  | append_singleton l c ih =>
    rw [List.pairwise_append] at hs
    have hlt : ∀ b ∈ l, b.1 < c.1 := fun b hb => hs.2.2 b hb c (List.mem_singleton_self c)
    rw [List.reverse_append, List.reverse_singleton, List.singleton_append, List.takeWhile_cons]
    cases hp : p c with
    | false =>
      simp only [Bool.false_eq_true, if_false, List.not_mem_nil, false_iff, not_and]
      intro ha hall
      have hac : a.1 ≤ c.1 := by
        rcases List.mem_append.mp ha with ha | ha
        · exact (hlt a ha).le
        · rw [List.mem_singleton.mp ha]
      have hpc := hall c (List.mem_append_right _ (List.mem_singleton_self c)) hac
      rw [hp] at hpc
      cases hpc
    | true =>
      simp only [if_true, List.mem_cons, ih hs.1, List.mem_append, List.not_mem_nil, or_false]
      constructor
      · rintro (rfl | ⟨ha, hall⟩)
        · refine ⟨.inr rfl, fun b hb hab => ?_⟩
          rcases hb with hb | rfl
          · exact absurd (hlt b hb) (not_lt.mpr hab)
          · exact hp
        · refine ⟨.inl ha, fun b hb hab => ?_⟩
          rcases hb with hb | rfl
          · exact hall b hb hab
          · exact hp
      · rintro ⟨ha | rfl, hall⟩
        · exact .inr ⟨ha, fun b hb => hall b (.inl hb)⟩
        · exact .inl rfl

/-- The sum of `f` over the entries. -/
def sum (m : SortedMap K V) (f : V → Nat) : Nat := (m.values.map f).sum

@[simp] theorem sum_empty (f : V → Nat) : (∅ : SortedMap K V).sum f = 0 := rfl

theorem sum_eq_entries (m : SortedMap K V) (f : V → Nat) :
    m.sum f = (m.entries.map fun a => f a.2).sum := by
  rw [sum, values, List.map_map]
  rfl

/-- The sum splits along any predicate. -/
theorem sum_filter_add (m : SortedMap K V) (f : V → Nat) (p : K → V → Bool) :
    (m.filter p).sum f + (m.filter fun k v => !p k v).sum f = m.sum f := by
  simp only [sum_eq_entries, filter]
  induction m.entries with
  | nil => rfl
  | cons a l ih =>
    cases hp : p a.1 a.2 <;> simp [hp, ← ih] <;> omega

theorem entries_erase {m : SortedMap K V} {k : K} {v : V} (h : m.find? k = some v) :
    m.entries.Perm ((k, v) :: (m.erase k).entries) := by
  refine (List.perm_ext_iff_of_nodup m.nodup_entries ?_).mpr fun a => ?_
  · refine List.nodup_cons.mpr ⟨fun hm => ?_, (m.erase k).nodup_entries⟩
    rw [mem_entries, find?_erase_self] at hm
    cases hm
  · obtain ⟨k', v'⟩ := a
    rw [List.mem_cons, mem_entries, mem_entries, find?_erase]
    by_cases hk : k = k'
    · subst hk
      simp [h, eq_comm]
    · simp [hk, Ne.symm hk]

theorem sum_erase {m : SortedMap K V} {k : K} {v : V} (h : m.find? k = some v) (f : V → Nat) :
    m.sum f = f v + (m.erase k).sum f := by
  rw [sum_eq_entries, sum_eq_entries, ((entries_erase h).map _).sum_eq, List.map_cons,
    List.sum_cons]

/-! ### Splitting off a prefix -/

/-- The key of the first entry that no longer fits when the values, in order, are paid for out of
`budget`. -/
def boundary (cost : V → Nat) (budget : Int) : List (K × V) → Option K
  | [] => none
  | a :: l => if (cost a.2 : Int) ≤ budget then boundary cost (budget - cost a.2) l else some a.1

/-- `k` comes before the boundary; every key does when there is none. -/
def before : Option K → K → Bool
  | none, _ => true
  | some b, k => k < b

/-- The longest prefix of the map whose values cost at most `budget`, and the rest. -/
def splitWithin (m : SortedMap K V) (cost : V → Nat) (budget : Int) :
    SortedMap K V × SortedMap K V :=
  let b := boundary cost budget m.entries
  (m.filter fun k _ => before b k, m.filter fun k _ => !before b k)

omit [LinearOrder K] in
theorem boundary_none {cost : V → Nat} {budget : Int} {l : List (K × V)}
    (h : boundary cost budget l = none) :
    l = [] ∨ (((l.map fun a => cost a.2).sum : Nat) : Int) ≤ budget := by
  induction l generalizing budget with
  | nil => exact .inl rfl
  | cons a l ih =>
    rw [boundary] at h
    split at h
    · rename_i hle
      refine .inr ?_
      rw [List.map_cons, List.sum_cons]
      rcases ih h with rfl | hl
      · simpa using hle
      · omega
    · cases h

omit [LinearOrder K] in
/-- The entries before the boundary fit in the budget, and do not with the one at it. -/
theorem boundary_some {cost : V → Nat} {budget : Int} {l : List (K × V)} {b : K}
    (h : boundary cost budget l = some b) :
    ∃ l₁ v l₂, l = l₁ ++ (b, v) :: l₂ ∧
      (l₁ = [] ∨ (((l₁.map fun a => cost a.2).sum : Nat) : Int) ≤ budget) ∧
      budget < ((l₁.map fun a => cost a.2).sum : Nat) + cost v := by
  induction l generalizing budget with
  | nil => cases h
  | cons a l ih =>
    rw [boundary] at h
    split at h
    · rename_i hle
      obtain ⟨l₁, v, l₂, rfl, hfit, hlt⟩ := ih h
      refine ⟨a :: l₁, v, l₂, rfl, .inr ?_, ?_⟩
      · rw [List.map_cons, List.sum_cons]
        rcases hfit with rfl | hfit
        · simpa using hle
        · omega
      · rw [List.map_cons, List.sum_cons]
        omega
    · rename_i hgt
      cases h
      exact ⟨[], a.2, l, rfl, .inl rfl, by simpa using hgt⟩

theorem filter_lt_eq {m : SortedMap K V} {b : K} {v : V} {l₁ l₂ : List (K × V)}
    (h : m.entries = l₁ ++ (b, v) :: l₂) : (m.filter fun k _ => decide (k < b)).entries = l₁ := by
  have hs := m.sorted
  rw [h, List.pairwise_append] at hs
  have h₁ : ∀ a ∈ l₁, a.1 < b := fun a ha => hs.2.2 a ha _ List.mem_cons_self
  have h₂ : ∀ a ∈ (b, v) :: l₂, ¬ a.1 < b := by
    intro a ha
    rcases List.mem_cons.mp ha with rfl | ha
    · exact lt_irrefl _
    · exact lt_asymm ((List.pairwise_cons.mp hs.2.1).1 a ha)
  change m.entries.filter _ = l₁
  rw [h, List.filter_append, List.filter_eq_self.mpr (by simpa using h₁),
    List.filter_eq_nil_iff.mpr (by simpa using h₂), List.append_nil]

/-- What a boundary is, in terms of the map. -/
theorem boundary_entries_some {m : SortedMap K V} {cost : V → Nat} {budget : Int} {b : K}
    (h : boundary cost budget m.entries = some b) :
    ∃ v, m.find? b = some v ∧
      (m.filter (fun k _ => decide (k < b)) = ∅ ∨
        ((m.filter fun k _ => decide (k < b)).sum cost : Int) ≤ budget) ∧
      budget < (m.filter fun k _ => decide (k < b)).sum cost + cost v := by
  obtain ⟨l₁, v, l₂, hl, hfit, hlt⟩ := boundary_some h
  have hmem : (b, v) ∈ m.entries := by rw [hl]; simp
  rw [sum_eq_entries, filter_lt_eq hl]
  refine ⟨v, mem_entries.mp hmem, hfit.imp_left fun hnil => ?_, hlt⟩
  rw [← min?_eq_none, min?, filter_lt_eq hl, hnil]
  rfl

theorem sum_filter_le (m : SortedMap K V) (f : V → Nat) (p : K → V → Bool) :
    (m.filter p).sum f ≤ m.sum f :=
  (sum_filter_add m f p) ▸ Nat.le_add_right _ _

/-- A filter that keeps more has a larger sum. -/
theorem sum_filter_mono {m : SortedMap K V} {f : V → Nat} {p q : K → V → Bool}
    (hpq : ∀ k v, p k v = true → q k v = true) : (m.filter p).sum f ≤ (m.filter q).sum f := by
  have hsub : m.filter p = (m.filter q).filter p := by
    refine ext_find fun k => ?_
    rw [find?_filter, find?_filter, find?_filter, Option.filter_filter]
    congr 1
    funext v
    cases hv : p k v with
    | false => simp
    | true => simp [hpq k v hv]
  rw [hsub]
  exact sum_filter_le _ _ _

/-- A filter that keeps more, and keeps an entry that the other drops, has a larger sum. -/
theorem sum_filter_add_le {m : SortedMap K V} {f : V → Nat} {p q : K → V → Bool} {k : K} {v : V}
    (hpq : ∀ k v, p k v = true → q k v = true) (h : m.find? k = some v) (hp : p k v = false)
    (hq : q k v = true) : (m.filter p).sum f + f v ≤ (m.filter q).sum f := by
  have hk : (m.filter q).find? k = some v := by simp [find?_filter, h, hq]
  have hsub : m.filter p = ((m.filter q).erase k).filter p := by
    refine ext_find fun k' => ?_
    rw [find?_filter, find?_filter, find?_erase, find?_filter]
    by_cases hkk : k = k'
    · subst hkk
      simp [h, hp]
    · rw [if_neg hkk]
      refine (Option.filter_filter ..).symm ▸ congrArg (fun r => (m.find? k').filter r) ?_
      funext v'
      cases hv : p k' v' with
      | false => simp
      | true => simp [hpq k' v' hv]
  rw [sum_erase hk, hsub, Nat.add_comm]
  exact Nat.add_le_add_left (sum_filter_le _ _ _) _

/-- When every value costs something, a budget of exactly the cost of the entries below `k` cuts
the map at `k`. -/
theorem before_boundary_iff {m : SortedMap K V} {cost : V → Nat} {k : K}
    (hpos : ∀ k v, m.find? k = some v → 0 < cost v) {k' : K} {v' : V} (h' : m.find? k' = some v') :
    before (boundary cost ((m.filter fun k' _ => decide (k' < k)).sum cost) m.entries) k' = true ↔
      k' < k := by
  have hmem := mem_entries.mpr h'
  have hv' := hpos k' v' h'
  cases hb : boundary cost ((m.filter fun k' _ => decide (k' < k)).sum cost) m.entries with
  | none =>
    simp only [before, true_iff]
    by_contra hk
    have hle : m.sum cost ≤ (m.filter fun k' _ => decide (k' < k)).sum cost := by
      rcases boundary_none hb with hnil | hle
      · rw [hnil] at hmem
        cases hmem
      · rw [sum_eq_entries]
        omega
    have hlt := sum_filter_add_le (f := cost) (p := fun k' _ => decide (k' < k))
      (q := fun _ _ => true) (fun _ _ _ => rfl) h' (decide_eq_false hk) rfl
    have hall := sum_filter_le m cost fun _ _ => true
    omega
  | some b =>
    obtain ⟨v, hv, hfit, hlt⟩ := boundary_entries_some hb
    simp only [before, decide_eq_true_eq]
    constructor
    · intro hkb
      by_contra hk
      have hlt' := sum_filter_add_le (f := cost) (p := fun k' _ => decide (k' < k))
        (q := fun k' _ => decide (k' < b))
        (fun a _ ha => by
          simp only [decide_eq_true_eq] at ha ⊢
          exact ha.trans_le ((not_lt.mp hk).trans hkb.le))
        h' (decide_eq_false hk) (decide_eq_true hkb)
      rcases hfit with hempty | hfit
      · have hnone := congrArg (fun m => m.find? k') hempty
        simp [find?_filter, h', hkb] at hnone
      · omega
    · intro hk
      by_contra hkb
      have hlt' := sum_filter_add_le (f := cost) (p := fun k' _ => decide (k' < b))
        (q := fun k' _ => decide (k' < k))
        (fun a _ ha => by
          simp only [decide_eq_true_eq] at ha ⊢
          exact ha.trans ((not_lt.mp hkb).trans_lt hk))
        hv (decide_eq_false (lt_irrefl _)) (decide_eq_true ((not_lt.mp hkb).trans_lt hk))
      omega

/-- What lies past the boundary starts with the boundary. -/
theorem min?_past_boundary {m : SortedMap K V} {cost : V → Nat} {budget : Int} {b : K}
    (h : boundary cost budget m.entries = some b) :
    ∃ v, m.find? b = some v ∧ (m.splitWithin cost budget).2.min? = some (b, v) := by
  obtain ⟨l₁, v, l₂, hl, -, -⟩ := boundary_some h
  have hmem : (b, v) ∈ m.entries := by rw [hl]; simp
  refine ⟨v, mem_entries.mp hmem, ?_⟩
  have hs := m.sorted
  rw [hl, List.pairwise_append] at hs
  have h₁ : ∀ a ∈ l₁, ¬ (!before (some b) a.1) = true := by
    intro a ha
    simpa [before] using hs.2.2 a ha _ List.mem_cons_self
  rw [splitWithin, h]
  change (m.entries.filter _).head? = _
  rw [hl, List.filter_append, List.filter_eq_nil_iff.mpr h₁, List.nil_append,
    List.filter_cons_of_pos (by simp [before])]
  rfl

/-- The least key of the rest is the boundary. -/
theorem boundary_of_min? {m : SortedMap K V} {cost : V → Nat} {budget : Int} {k : K} {v : V}
    (h : (m.splitWithin cost budget).2.min? = some (k, v)) :
    boundary cost budget m.entries = some k := by
  cases hb : boundary cost budget m.entries with
  | none =>
    have hk := find?_of_min? h
    rw [splitWithin, hb, find?_filter] at hk
    cases hm : m.find? k <;> simp [hm, before, Option.filter_some] at hk
  | some b =>
    obtain ⟨v', -, hmin⟩ := min?_past_boundary hb
    rw [h] at hmin
    cases hmin
    rfl

/-- When nothing is left, all of the map is split off. -/
theorem splitWithin_of_empty {m : SortedMap K V} {cost : V → Nat} {budget : Int}
    (h : (m.splitWithin cost budget).2 = ∅) : (m.splitWithin cost budget).1 = m := by
  refine ext_find fun k => ?_
  have hk := congrArg (fun m => m.find? k) h
  simp only [splitWithin, find?_filter, find?_empty] at hk ⊢
  cases hm : m.find? k with
  | none => rfl
  | some v =>
    rw [hm] at hk
    simpa [Option.filter_some] using hk

/-- What is split off is within the budget. -/
theorem sum_splitWithin_le (m : SortedMap K V) (cost : V → Nat) (budget : Nat) :
    (m.splitWithin cost budget).1.sum cost ≤ budget := by
  unfold splitWithin
  cases hb : boundary cost budget m.entries with
  | none =>
    have hle := sum_filter_le m cost fun k _ => before none k
    rcases boundary_none hb with hnil | hfit
    · rw [sum_eq_entries m, hnil] at hle
      exact hle.trans (Nat.zero_le _)
    · rw [sum_eq_entries m] at hle
      exact hle.trans (by exact_mod_cast hfit)
  | some b =>
    obtain ⟨v, -, hempty | hfit, -⟩ := boundary_entries_some hb
    · show (m.filter fun k _ => decide (k < b)).sum cost ≤ budget
      rw [hempty]
      exact Nat.zero_le _
    · exact_mod_cast hfit

/-- The first entry of the rest would exceed the budget. -/
theorem lt_sum_splitWithin_of_min? {m : SortedMap K V} {cost : V → Nat} {budget : Int} {k : K} {v : V}
    (h : (m.splitWithin cost budget).2.min? = some (k, v)) :
    budget < (m.splitWithin cost budget).1.sum cost + cost v := by
  have hb := boundary_of_min? h
  obtain ⟨v', hv', -, hlt⟩ := boundary_entries_some hb
  obtain ⟨v'', hv'', hmin⟩ := min?_past_boundary hb
  rw [h] at hmin
  cases hmin
  cases hv'.symm.trans hv''
  rw [splitWithin, hb]
  exact hlt

/-- The prefix and the rest make up the map. -/
theorem entries_splitWithin (m : SortedMap K V) (cost : V → Nat) (budget : Int) :
    m.entries = (m.splitWithin cost budget).1.entries ++ (m.splitWithin cost budget).2.entries := by
  unfold splitWithin
  cases hb : boundary cost budget m.entries with
  | none => simp [filter, before]
  | some b =>
    obtain ⟨l₁, v, l₂, hl, -, -⟩ := boundary_some hb
    have hs := m.sorted
    rw [hl, List.pairwise_append] at hs
    have hfirst : (m.filter fun k _ => before (some b) k).entries = l₁ := filter_lt_eq hl
    have hrest : (m.filter fun k _ => !before (some b) k).entries = (b, v) :: l₂ := by
      have h₁ : ∀ a ∈ l₁, ¬ (!before (some b) a.1) = true := by
        intro a ha
        simpa [before] using hs.2.2 a ha _ List.mem_cons_self
      have h₂ : ∀ a ∈ (b, v) :: l₂, (!before (some b) a.1) = true := by
        intro a ha
        rcases List.mem_cons.mp ha with rfl | ha
        · simp [before]
        · simpa [before] using ((List.pairwise_cons.mp hs.2.1).1 a ha).le
      change m.entries.filter _ = _
      rw [hl, List.filter_append, List.filter_eq_nil_iff.mpr h₁, List.filter_eq_self.mpr h₂,
        List.nil_append]
    rw [hfirst, hrest, hl]

/-- The sum over one key. -/
theorem sum_filter_key (m : SortedMap K V) (f : V → Nat) (k : K) :
    (m.filter fun k' _ => decide (k' = k)).sum f = ((m.find? k).map f).getD 0 := by
  cases hk : m.find? k with
  | none =>
    have hnone : (m.filter fun k' _ => decide (k' = k)) = ∅ := by
      refine ext_find fun k' => ?_
      rw [find?_filter]
      by_cases hkk : k' = k
      · rw [hkk, hk]
        rfl
      · simp [hkk]
    rw [hnone]
    rfl
  | some v =>
    have hfind : (m.filter fun k' _ => decide (k' = k)).find? k = some v := by simp [find?_filter, hk]
    have hrest : (m.filter fun k' _ => decide (k' = k)).erase k = ∅ := by
      refine ext_find fun k' => ?_
      rw [find?_erase, find?_filter]
      by_cases hkk : k = k'
      · simp [hkk]
      · simp [hkk, Ne.symm hkk]
    rw [sum_erase hfind, hrest]
    rfl

theorem filter_congr {m : SortedMap K V} {p q : K → V → Bool}
    (h : ∀ k v, m.find? k = some v → p k v = q k v) : m.filter p = m.filter q := by
  refine ext_find fun k => ?_
  rw [find?_filter, find?_filter]
  cases hk : m.find? k with
  | none => rfl
  | some v => simp [Option.filter_some, h k v hk]

/-- The sums over classes of keys add up. -/
theorem sum_filter_classes {ι : Type} [DecidableEq ι] (m : SortedMap K V) (f : V → Nat) (c : K → ι)
    {l : List ι} (hl : l.Nodup) :
    (l.map fun q => (m.filter fun k _ => decide (c k = q)).sum f).sum =
      (m.filter fun k _ => decide (c k ∈ l)).sum f := by
  induction l with
  | nil =>
    have hnone : (m.filter fun k _ => decide (c k ∈ ([] : List ι))) = ∅ := by
      refine ext_find fun k => ?_
      simp [find?_filter]
    rw [hnone]
    rfl
  | cons a l ih =>
    obtain ⟨ha, hl⟩ := List.nodup_cons.mp hl
    rw [List.map_cons, List.sum_cons, ih hl,
      ← sum_filter_add (m.filter fun k _ => decide (c k ∈ a :: l)) f fun k _ => decide (c k = a)]
    congr 2
    · refine ext_find fun k => ?_
      simp only [find?_filter, Option.filter_filter]
      congr 1
      funext v
      by_cases hk : c k = a <;> simp [hk]
    · refine ext_find fun k => ?_
      simp only [find?_filter, Option.filter_filter]
      congr 1
      funext v
      by_cases hk : c k = a
      · simp [hk, ha]
      · simp [hk]

theorem sum_insert_erase (m : SortedMap K V) (k : K) (v : V) (f : V → Nat) :
    ((m.erase k).insert k v).sum f = f v + (m.erase k).sum f := by
  have hfind : ((m.erase k).insert k v).find? k = some v := by simp
  have herase : ((m.erase k).insert k v).erase k = m.erase k := by
    refine ext_find fun k' => ?_
    rw [find?_erase, find?_insert, find?_erase]
    split <;> rfl
  rw [sum_erase hfind, herase]

end SortedMap

end Lib
